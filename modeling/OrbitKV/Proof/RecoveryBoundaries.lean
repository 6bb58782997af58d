import OrbitKV.Lib.Multiples
import OrbitKV.Proof.RecoveryRanges

/-!
# The boundaries that given pages restore

The code never looks for a page: it counts, and it stops at the first gap in group zero.
-/

namespace OrbitKV

open Std ExtTreeMap

namespace RecoveryContract

variable {contract : RecoveryContract}
  {pageEnds : List UInt64} {span : TokenRange} {coverage : ExtTreeMap UInt32 (List UInt64)}
  {boundary : UInt64} {bundle : StateBundle}

/-! ### Evidence -/

structure Regular (contract : RecoveryContract) (span : TokenRange) (pageEnds : List UInt64) :
    Prop where
  sorted : pageEnds.Pairwise fun a b => a.toNat < b.toNat
  above : ∀ pageEnd ∈ pageEnds, span.start.toNat < pageEnd.toNat
  below : ∀ pageEnd ∈ pageEnds, pageEnd.toNat ≤ span.stop.toNat
  aligned : ∀ pageEnd ∈ pageEnds, contract.pageTokens.toNat ∣ pageEnd.toNat

structure WellFormed (contract : RecoveryContract) (bundle : StateBundle) : Prop where
  ns_eq : bundle.ns = contract.ns
  span : contract.ValidSpan bundle.span
  registered : ∀ component ∈ bundle.components, component.group ∈ contract.requirements
  distinct : bundle.components.Pairwise fun a b => a.group ≠ b.group
  complete : ∀ group ∈ contract.requirements, ∃ component ∈ bundle.components,
    component.group = group
  regular : ∀ component ∈ bundle.components, contract.Regular bundle.span component.pageEnds

theorem checkEnds_ok_iff {group : UInt32} {stop : UInt64} :
    ∀ {previous : UInt64}, contract.checkEnds group stop previous pageEnds = .ok () ↔
      contract.Regular ⟨previous, stop⟩ pageEnds := by
  induction pageEnds with
  | nil =>
    intro previous
    exact iff_of_true rfl ⟨.nil, nofun, nofun, nofun⟩
  | cons pageEnd pageEnds ih =>
    intro previous
    rw [checkEnds]
    split
    case isTrue hinvalid =>
      refine iff_of_false nofun fun hregular => ?_
      have habove : previous.toNat < pageEnd.toNat := hregular.above pageEnd List.mem_cons_self
      have hbelow : pageEnd.toNat ≤ stop.toNat := hregular.below pageEnd List.mem_cons_self
      have haligned := isMultipleOf_iff.mpr (hregular.aligned pageEnd List.mem_cons_self)
      simp only [Bool.or_eq_true, decide_eq_true_eq, UInt64.le_iff_toNat_le,
        UInt64.lt_iff_toNat_lt, haligned, Bool.not_true, Bool.false_eq_true, or_false] at hinvalid
      omega
    case isFalse hvalid =>
      simp only [Bool.or_eq_true, decide_eq_true_eq, UInt64.le_iff_toNat_le,
        UInt64.lt_iff_toNat_lt, not_or, Bool.not_eq_true, Bool.not_eq_false',
        isMultipleOf_iff] at hvalid
      obtain ⟨⟨habove, hbelow⟩, haligned⟩ := hvalid
      rw [ih]
      constructor
      · intro hrest
        refine ⟨List.pairwise_cons.mpr ⟨hrest.above, hrest.sorted⟩, ?_, ?_, ?_⟩
        · exact List.forall_mem_cons.mpr ⟨by simpa using habove,
            fun e he => (Nat.lt_of_not_le habove).trans (hrest.above e he)⟩
        · exact List.forall_mem_cons.mpr ⟨by simpa using hbelow, hrest.below⟩
        · exact List.forall_mem_cons.mpr ⟨haligned, hrest.aligned⟩
      · intro hall
        obtain ⟨hfirst, hsorted⟩ := List.pairwise_cons.mp hall.sorted
        exact ⟨hsorted, hfirst, (List.forall_mem_cons.mp hall.below).2,
          (List.forall_mem_cons.mp hall.aligned).2⟩

theorem noPanic_checkEnds (group : UInt32) (stop previous : UInt64) (pageEnds : List UInt64) :
    NoPanic (contract.checkEnds group stop previous pageEnds) := by
  induction pageEnds generalizing previous with
  | nil => exact noPanic_ok _
  | cons pageEnd pageEnds ih =>
    rw [checkEnds]
    split
    · exact noPanic_fail _
    · exact ih pageEnd

structure Gathers (contract : RecoveryContract) (span : TokenRange)
    (components : List BundleComponent) (coverage : ExtTreeMap UInt32 (List UInt64)) : Prop where
  registered : ∀ component ∈ components, component.group ∈ contract.requirements
  fresh : ∀ component ∈ components, component.group ∉ coverage
  distinct : components.Pairwise fun a b => a.group ≠ b.group
  regular : ∀ component ∈ components, contract.Regular span component.pageEnds

theorem gatherCoverage_ok {components : List BundleComponent} :
    ∀ {coverage coverage' : ExtTreeMap UInt32 (List UInt64)},
      contract.gatherCoverage span components coverage = .ok coverage' →
      contract.Gathers span components coverage ∧
        ∀ (group : UInt32) (pageEnds : List UInt64), coverage'[group]? = some pageEnds ↔
          coverage[group]? = some pageEnds ∨
            ∃ component ∈ components, component.group = group ∧ component.pageEnds = pageEnds := by
  induction components with
  | nil =>
    intro coverage coverage' hok
    obtain rfl : coverage = coverage' := by simpa [gatherCoverage] using hok
    exact ⟨⟨nofun, nofun, .nil, nofun⟩, by simp⟩
  | cons component components ih =>
    intro coverage coverage' hok
    rw [gatherCoverage] at hok
    split at hok
    · cases hok
    next hgroup =>
    simp only [Bool.or_eq_true, Bool.not_eq_true', not_or, Bool.not_eq_false,
      ← mem_iff_contains] at hgroup
    obtain ⟨hregistered, hfresh⟩ := hgroup
    obtain ⟨_, hends, hok⟩ := bind_eq_ok hok
    obtain ⟨hrest, hlookup⟩ := ih hok
    have hnew : ∀ other ∈ components, component.group ≠ other.group ∧ other.group ∉ coverage := by
      intro other hother
      have hnot := hrest.fresh other hother
      rw [mem_insert, not_or, Std.compare_eq_iff_eq] at hnot
      exact hnot
    refine ⟨⟨List.forall_mem_cons.mpr ⟨hregistered, hrest.registered⟩,
      List.forall_mem_cons.mpr ⟨hfresh, fun other hother => (hnew other hother).2⟩,
      List.pairwise_cons.mpr ⟨fun other hother => (hnew other hother).1, hrest.distinct⟩,
      List.forall_mem_cons.mpr ⟨checkEnds_ok_iff.mp hends, hrest.regular⟩⟩, ?_⟩
    intro group pageEnds
    rw [hlookup, getElem?_insert]
    by_cases hkey : component.group = group
    · subst hkey
      simp [getElem?_eq_none hfresh]
    · simp [hkey]

theorem gatherCoverage_of_gathers {components : List BundleComponent} :
    ∀ {coverage : ExtTreeMap UInt32 (List UInt64)}, contract.Gathers span components coverage →
      ∃ coverage', contract.gatherCoverage span components coverage = .ok coverage' := by
  induction components with
  | nil => exact fun {coverage} _ => ⟨coverage, rfl⟩
  | cons component components ih =>
    intro coverage hgathers
    have hregistered := hgathers.registered component List.mem_cons_self
    have hfresh := hgathers.fresh component List.mem_cons_self
    obtain ⟨hnew, hdistinct⟩ := List.pairwise_cons.mp hgathers.distinct
    have hends : contract.checkEnds component.group span.stop span.start component.pageEnds =
        .ok () :=
      checkEnds_ok_iff.mpr (hgathers.regular component List.mem_cons_self)
    have hrest : contract.Gathers span components
        (coverage.insert component.group component.pageEnds) := by
      refine ⟨(List.forall_mem_cons.mp hgathers.registered).2, fun other hother => ?_, hdistinct,
        (List.forall_mem_cons.mp hgathers.regular).2⟩
      rw [mem_insert, not_or, Std.compare_eq_iff_eq]
      exact ⟨hnew other hother, (List.forall_mem_cons.mp hgathers.fresh).2 other hother⟩
    obtain ⟨coverage', hrest⟩ := ih hrest
    refine ⟨coverage', ?_⟩
    rw [mem_iff_contains] at hregistered hfresh
    rw [gatherCoverage, if_neg (by simp [hregistered, hfresh]), hends]
    exact hrest

theorem noPanic_gatherCoverage (span : TokenRange) (components : List BundleComponent)
    (coverage : ExtTreeMap UInt32 (List UInt64)) :
    NoPanic (contract.gatherCoverage span components coverage) := by
  induction components generalizing coverage with
  | nil => exact noPanic_ok _
  | cons component components ih =>
    rw [gatherCoverage]
    split
    · exact noPanic_fail _
    · exact (noPanic_checkEnds _ _ _ _).bind fun _ _ => ih _

theorem checkGroups_ok_iff {groups : List UInt32} :
    checkGroups coverage groups = .ok () ↔ ∀ group ∈ groups, group ∈ coverage := by
  induction groups with
  | nil => exact iff_of_true rfl nofun
  | cons group groups ih =>
    rw [checkGroups, List.forall_mem_cons, mem_iff_contains]
    split
    case isTrue hfound => rw [ih, and_iff_right hfound]
    case isFalse hmissing => exact iff_of_false nofun fun hall => hmissing hall.1

theorem noPanic_checkGroups (coverage : ExtTreeMap UInt32 (List UInt64)) (groups : List UInt32) :
    NoPanic (checkGroups coverage groups) := by
  induction groups with
  | nil => exact noPanic_ok _
  | cons group groups ih =>
    rw [checkGroups]
    split
    · exact ih
    · exact noPanic_fail _

/-! ### One boundary -/

def Covers (contract : RecoveryContract) (start boundary : UInt64) (pages : Option UInt64)
    (pageEnds : List UInt64) : Prop :=
  ∀ needed, contract.requiredSpan ⟨start, boundary⟩ pages = .ok needed →
    ∀ pageEnd : UInt64, needed.start < pageEnd → pageEnd ≤ needed.stop →
      contract.pageTokens.toNat ∣ pageEnd.toNat → pageEnd ∈ pageEnds

theorem mem_map_toNat {pageEnd : UInt64} :
    pageEnd.toNat ∈ pageEnds.map UInt64.toNat ↔ pageEnd ∈ pageEnds := by
  simp [UInt64.toNat_inj]

theorem covers_iff {start : UInt64} {pages : Option UInt64} {needed : TokenRange}
    (hneeded : contract.requiredSpan ⟨start, boundary⟩ pages = .ok needed) :
    contract.Covers start boundary pages pageEnds ↔
      ∀ n, needed.start.toNat < n → n ≤ needed.stop.toNat → contract.pageTokens.toNat ∣ n →
        n ∈ pageEnds.map UInt64.toNat := by
  constructor
  · intro hcovers n hstart hstop hdvd
    have hn : (UInt64.ofNat n).toNat = n :=
      UInt64.toNat_ofNat_of_lt' (hstop.trans_lt needed.stop.toNat_lt)
    rw [← hn] at hstart hstop hdvd ⊢
    exact mem_map_toNat.mpr (hcovers needed hneeded _ (UInt64.lt_iff_toNat_lt.mpr hstart)
      (UInt64.le_iff_toNat_le.mpr hstop) hdvd)
  · intro hall needed' hneeded' pageEnd hstart hstop hdvd
    obtain rfl := Except.ok.inj (hneeded.symm.trans hneeded')
    exact mem_map_toNat.mp (hall _ (UInt64.lt_iff_toNat_lt.mp hstart)
      (UInt64.le_iff_toNat_le.mp hstop) hdvd)

theorem partitionPoint_toNat (bound : UInt64) (pageEnds : List UInt64) :
    partitionPoint (· ≤ bound) pageEnds =
      partitionPoint (fun pageEnd => pageEnd.toNat ≤ bound.toNat) pageEnds := by
  congr 1

theorem groupComplete_ok (hcompiled : contract.Compiled)
    (hspan : contract.ValidSpan ⟨span.start, boundary⟩) {requirement : UInt32 × Option UInt64}
    (hends : coverage[requirement.1]? = some pageEnds) (hregular : contract.Regular span pageEnds) :
    ∃ complete, contract.groupComplete span.start coverage boundary requirement = .ok complete ∧
      (complete = true ↔ contract.Covers span.start boundary requirement.2 pageEnds) := by
  obtain ⟨needed, hneeded, hspec⟩ := requiredSpan_ok hcompiled hspan requirement.2
  have hle : needed.start.toNat ≤ needed.stop.toNat := by
    rw [hspec.stop_eq]
    have := hspec.start_add
    omega
  obtain ⟨hsub, htokens⟩ := checkedSub_of_le (UInt64.le_iff_toNat_le.mpr hle)
  obtain ⟨hfirst, hcount⟩ := partitionPoint_sub_eq_iff hregular.sorted hregular.aligned hle
    hspec.start_dvd
  rw [← partitionPoint_toNat, ← partitionPoint_toNat] at hfirst hcount
  refine ⟨decide (partitionPoint (· ≤ needed.stop) pageEnds -
    partitionPoint (· ≤ needed.start) pageEnds =
      ((needed.stop - needed.start) / contract.pageTokens).toNat), ?_, ?_⟩
  · simp only [groupComplete, hends, hneeded, orPanic, if_pos hfirst, hsub,
      checkedDiv_pageTokens hcompiled, bind, Except.bind, pure, Except.pure]
  · rw [decide_eq_true_eq, UInt64.toNat_div, htokens, hcount, covers_iff hneeded]

/-! ### All boundaries -/

structure Evidence (contract : RecoveryContract) (span : TokenRange)
    (coverage : ExtTreeMap UInt32 (List UInt64)) : Prop where
  complete : ∀ group ∈ contract.requirements, group ∈ coverage
  regular : ∀ (group : UInt32) (pageEnds : List UInt64), coverage[group]? = some pageEnds →
    contract.Regular span pageEnds

def Restorable (contract : RecoveryContract) (start : UInt64)
    (coverage : ExtTreeMap UInt32 (List UInt64)) (boundary : UInt64) : Prop :=
  ∀ (group : UInt32) (pages : Option UInt64), contract.requirements[group]? = some pages →
    ∀ pageEnds, coverage[group]? = some pageEnds →
      contract.Covers start boundary pages pageEnds

theorem allM_groupComplete (hcompiled : contract.Compiled)
    (hevidence : contract.Evidence span coverage)
    (hspan : contract.ValidSpan ⟨span.start, boundary⟩) :
    ∃ complete, contract.requirements.toList.allM
        (contract.groupComplete span.start coverage boundary) = .ok complete ∧
      (complete = true ↔ contract.Restorable span.start coverage boundary) := by
  have hgroup : ∀ requirement ∈ contract.requirements.toList, ∃ complete,
      contract.groupComplete span.start coverage boundary requirement = .ok complete ∧
        (complete = true ↔ ∀ pageEnds, coverage[requirement.1]? = some pageEnds →
          contract.Covers span.start boundary requirement.2 pageEnds) := by
    intro requirement hmem
    have hrequired := mem_toList_iff_getElem?_eq_some.mp hmem
    have hfound := hevidence.complete requirement.1
      (mem_iff_isSome_getElem?.mpr (by simp [hrequired]))
    obtain ⟨pageEnds, hends⟩ := Option.isSome_iff_exists.mp (mem_iff_isSome_getElem?.mp hfound)
    obtain ⟨complete, hok, hiff⟩ :=
      groupComplete_ok hcompiled hspan hends (hevidence.regular _ _ hends)
    exact ⟨complete, hok, by simp [hiff, hends]⟩
  choose! complete hok hiff using hgroup
  refine ⟨_, allM_of_forall hok, ?_⟩
  rw [List.all_eq_true]
  constructor
  · intro hall group pages hrequired
    have hmem := mem_toList_iff_getElem?_eq_some.mpr hrequired
    exact (hiff _ hmem).mp (hall _ hmem)
  · intro hall requirement hmem
    exact (hiff _ hmem).mpr (hall _ _ (mem_toList_iff_getElem?_eq_some.mp hmem))

theorem Restorable.groupZero (hcompiled : contract.Compiled)
    (hspan : contract.ValidSpan ⟨span.start, boundary⟩)
    (hrestorable : contract.Restorable span.start coverage boundary)
    (hends : coverage[(0 : UInt32)]? = some pageEnds) :
    ∀ n, span.start.toNat < n → n ≤ boundary.toNat → contract.pageTokens.toNat ∣ n →
      n ∈ pageEnds.map UInt64.toNat := by
  obtain ⟨needed, hneeded, hspec⟩ := requiredSpan_ok hcompiled hspan none
  obtain rfl := hspec.eq_span hspan
  exact (covers_iff hneeded).mp (hrestorable 0 none hcompiled.groupZero pageEnds hends)

/-- **The loop is a filter.** Stopping at the first gap of group zero loses no boundary. -/
theorem collectBoundaries_eq (hcompiled : contract.Compiled)
    (hstart : contract.pageTokens.toNat ∣ span.start.toNat) {all : List UInt64}
    (hends : coverage[(0 : UInt32)]? = some all) (hregular : contract.Regular span all)
    {complete : UInt64 → Bool}
    (hcomplete : ∀ boundary ∈ all, contract.requirements.toList.allM
      (contract.groupComplete span.start coverage boundary) = .ok (complete boundary))
    (hiff : ∀ boundary ∈ all,
      complete boundary = true ↔ contract.Restorable span.start coverage boundary) :
    ∀ {before boundaries : List UInt64}, all = before ++ boundaries →
      contract.collectBoundaries span.start coverage before.length boundaries =
        .ok (boundaries.filter complete) := by
  have hvalid : ∀ boundary ∈ all, contract.ValidSpan ⟨span.start, boundary⟩ := fun boundary hmem =>
    ⟨(hregular.above boundary hmem).le, hstart, hregular.aligned boundary hmem⟩
  intro before boundaries
  induction boundaries generalizing before with
  | nil => exact fun _ => rfl
  | cons boundary boundaries ih =>
    intro hall
    have hindex : before.length < all.length := by
      rw [hall]
      simp
    have hget : all[before.length] = boundary := by
      simp [hall]
    have hmem : boundary ∈ all := by
      rw [← hget]
      exact List.getElem_mem hindex
    obtain ⟨hsub, htokens⟩ :=
      checkedSub_of_le (UInt64.le_iff_toNat_le.mpr (hregular.above boundary hmem).le)
    have hbound : before.length + 1 < 2 ^ 64 := by
      have hlt := add_lt_getElem hregular.sorted hregular.above hindex
      have := all[before.length].toNat_lt
      omega
    have hposition : (UInt64.ofNat before.length).toNat = before.length :=
      UInt64.toNat_ofNat_of_lt' (show before.length < 2 ^ 64 by omega)
    obtain ⟨hadd, haddNat⟩ := checkedAdd_of_lt (a := .ofNat before.length) (b := 1)
      (by rw [hposition]; exact hbound)
    have hrest : contract.collectBoundaries span.start coverage (before ++ [boundary]).length
        boundaries = .ok (boundaries.filter complete) := ih (by simp [hall])
    rw [List.length_append, List.length_singleton] at hrest
    simp only [collectBoundaries, hsub, checkedDiv_pageTokens hcompiled, orPanic, hadd, bind,
      Except.bind, pure, Except.pure]
    split
    case isTrue hgap =>
      -- past the gap nothing is restorable
      refine congrArg Except.ok (Eq.symm (List.filter_eq_nil_iff.mpr fun later hlater hdone => ?_))
      have hlater' : later ∈ all := by
        rw [hall]
        exact List.mem_append_right _ hlater
      have hle : boundary.toNat ≤ later.toNat := by
        have hsorted := hregular.sorted
        rw [hall, List.pairwise_append, List.pairwise_cons] at hsorted
        rcases List.mem_cons.mp hlater with rfl | hafter
        · exact le_rfl
        · exact (hsorted.2.1.1 later hafter).le
      have hcovered := ((hiff later hlater').mp hdone).groupZero hcompiled (hvalid later hlater')
        hends
      have hcount := index_of_covered hregular.sorted hregular.aligned hstart hregular.above
        hindex fun n hlow hhigh hdvd => hcovered n hlow (by rw [hget] at hhigh; omega) hdvd
      refine hgap (UInt64.toNat_inj.mp ?_)
      rw [UInt64.toNat_div, htokens, haddNat, hposition, ← hget, hcount]
      rfl
    case isFalse =>
      rw [hcomplete boundary hmem, hrest]
      simp only [List.filter_cons]

/-! ### Evidence and boundaries -/

def Available (bundle : StateBundle) (group : UInt32) (pageEnd : UInt64) : Prop :=
  ∃ component ∈ bundle.components, component.group = group ∧ pageEnd ∈ component.pageEnds

/-- **The specification of a restorable boundary.** It is aligned, lies in the queried tail, and
every page that the required ranges demand up to it is available. -/
structure IsBoundary (contract : RecoveryContract) (bundle : StateBundle) (boundary : UInt64) :
    Prop where
  aligned : contract.pageTokens.toNat ∣ boundary.toNat
  above : bundle.span.start < boundary
  below : boundary ≤ bundle.span.stop
  available : ∃ ranges,
    contract.requiredRanges bundle.ns ⟨bundle.span.start, boundary⟩ = .ok ranges ∧
      ∀ range ∈ ranges, ∀ pageEnd : UInt64, range.2.start < pageEnd → pageEnd ≤ range.2.stop →
        contract.pageTokens.toNat ∣ pageEnd.toNat → Available bundle range.1 pageEnd

theorem requiredRanges_ok (hcompiled : contract.Compiled) (hspan : contract.ValidSpan span) :
    ∃ ranges, contract.requiredRanges contract.ns span = .ok ranges ∧
      (ranges.Pairwise fun a b => a.1 < b.1) ∧
      ∀ (group : UInt32) (range : TokenRange), (group, range) ∈ ranges ↔
        ∃ pages, contract.requirements[group]? = some pages ∧
          contract.requiredSpan span pages = .ok range := by
  have hvalid : contract.validateSpan contract.ns span = .ok () :=
    validateSpan_ok_iff.mpr ⟨rfl, hspan⟩
  choose needed hneeded _ using fun pages => requiredSpan_ok hcompiled hspan pages
  refine ⟨contract.requirements.toList.map fun requirement => (requirement.1, needed requirement.2),
    ?_, ?_, fun group range => ?_⟩
  · rw [requiredRanges, hvalid]
    refine mapM_of_forall fun requirement _ => ?_
    simp only [hneeded, bind, Except.bind, pure, Except.pure]
  · exact List.pairwise_map.mpr (ExtTreeMap.ordered_keys_toList.imp Std.compare_eq_lt.mp)
  · simp only [List.mem_map, Prod.exists, Prod.mk.injEq,
      mem_toList_iff_getElem?_eq_some]
    constructor
    · rintro ⟨group', pages, hrequired, rfl, rfl⟩
      exact ⟨pages, hrequired, hneeded pages⟩
    · rintro ⟨pages, hrequired, hrange⟩
      exact ⟨group, pages, hrequired, rfl, Except.ok.inj ((hneeded pages).symm.trans hrange)⟩

structure Gathered (bundle : StateBundle) (coverage : ExtTreeMap UInt32 (List UInt64)) : Prop where
  lookup : ∀ (group : UInt32) (pageEnds : List UInt64), coverage[group]? = some pageEnds ↔
    ∃ component ∈ bundle.components, component.group = group ∧ component.pageEnds = pageEnds

theorem isBoundary_iff (hcompiled : contract.Compiled) (hwell : contract.WellFormed bundle)
    (hgathered : Gathered bundle coverage)
    (hspan : contract.ValidSpan ⟨bundle.span.start, boundary⟩) :
    contract.Restorable bundle.span.start coverage boundary ↔
      ∃ ranges, contract.requiredRanges bundle.ns ⟨bundle.span.start, boundary⟩ = .ok ranges ∧
        ∀ range ∈ ranges, ∀ pageEnd : UInt64, range.2.start < pageEnd → pageEnd ≤ range.2.stop →
          contract.pageTokens.toNat ∣ pageEnd.toNat → Available bundle range.1 pageEnd := by
  obtain ⟨ranges, hranges, -, hmem⟩ := requiredRanges_ok hcompiled hspan
  rw [hwell.ns_eq]
  constructor
  · refine fun hrestorable => ⟨ranges, hranges, ?_⟩
    rintro ⟨group, range⟩ hrange pageEnd hlow hhigh hdvd
    obtain ⟨pages, hrequired, hneeded⟩ := (hmem group range).mp hrange
    obtain ⟨component, hcomponent, rfl⟩ := hwell.complete group
      (mem_iff_isSome_getElem?.mpr (by simp [hrequired]))
    have hends := (hgathered.lookup _ _).mpr ⟨component, hcomponent, rfl, rfl⟩
    exact ⟨component, hcomponent, rfl,
      hrestorable _ pages hrequired _ hends range hneeded pageEnd hlow hhigh hdvd⟩
  · rintro ⟨ranges', hranges', hall⟩ group pages hrequired pageEnds hends needed hneeded pageEnd
      hlow hhigh hdvd
    obtain rfl := Except.ok.inj (hranges.symm.trans hranges')
    obtain ⟨component, hcomponent, hgroup, hpage⟩ := hall (group, needed)
      ((hmem group needed).mpr ⟨pages, hrequired, hneeded⟩) pageEnd hlow hhigh hdvd
    have hsame := (hgathered.lookup group component.pageEnds).mpr ⟨component, hcomponent, hgroup, rfl⟩
    rwa [Option.some.inj (hends.symm.trans hsame)]

theorem restorableBoundaries_ok (hcompiled : contract.Compiled)
    (hwell : contract.WellFormed bundle) :
    ∃ boundaries, contract.restorableBoundaries bundle = .ok boundaries ∧
      boundaries.Pairwise (· < ·) ∧
      ∀ boundary, boundary ∈ boundaries ↔ contract.IsBoundary bundle boundary := by
  have hgathers : contract.Gathers bundle.span bundle.components ∅ :=
    ⟨hwell.registered, by simp, hwell.distinct, hwell.regular⟩
  obtain ⟨coverage, hcoverage⟩ := gatherCoverage_of_gathers hgathers
  obtain ⟨-, hlookup⟩ := gatherCoverage_ok hcoverage
  have hgathered : Gathered bundle coverage := ⟨by simpa using hlookup⟩
  have hevidence : contract.Evidence bundle.span coverage := by
    refine ⟨fun group hgroup => ?_, fun group pageEnds hends => ?_⟩
    · obtain ⟨component, hcomponent, rfl⟩ := hwell.complete group hgroup
      have hends := (hgathered.lookup _ _).mpr ⟨component, hcomponent, rfl, rfl⟩
      exact mem_iff_isSome_getElem?.mpr (by simp [hends])
    · obtain ⟨component, hcomponent, -, rfl⟩ := (hgathered.lookup _ _).mp hends
      exact hwell.regular component hcomponent
  have hgroups : checkGroups coverage contract.requirements.keys = .ok () :=
    checkGroups_ok_iff.mpr fun group hgroup =>
      hevidence.complete group (ExtTreeMap.mem_keys.mp hgroup)
  have hzero : (0 : UInt32) ∈ contract.requirements :=
    mem_iff_isSome_getElem?.mpr (by simp [hcompiled.groupZero])
  obtain ⟨all, hall⟩ := Option.isSome_iff_exists.mp
    (mem_iff_isSome_getElem?.mp (hevidence.complete 0 hzero))
  have hregular := hevidence.regular 0 all hall
  have hvalid : ∀ boundary ∈ all, contract.ValidSpan ⟨bundle.span.start, boundary⟩ :=
    fun boundary hmem => ⟨(hregular.above boundary hmem).le, hwell.span.start_dvd,
      hregular.aligned boundary hmem⟩
  choose! complete hcomplete hiff using fun boundary (hmem : boundary ∈ all) =>
    allM_groupComplete hcompiled hevidence (hvalid boundary hmem)
  have hcollect : contract.collectBoundaries bundle.span.start coverage ([] : List UInt64).length
      all = .ok (all.filter complete) :=
    collectBoundaries_eq hcompiled hwell.span.start_dvd hall hregular hcomplete hiff rfl
  refine ⟨all.filter complete, ?_, ?_, fun boundary => ?_⟩
  · have hspan : contract.validateSpan bundle.ns bundle.span = .ok () :=
      validateSpan_ok_iff.mpr ⟨hwell.ns_eq, hwell.span⟩
    simp only [restorableBoundaries, hspan, hcoverage, hgroups, hall, orPanic, bind, Except.bind]
    exact hcollect
  · exact (hregular.sorted.imp fun {_ _} hlt => UInt64.lt_iff_toNat_lt.mpr hlt).filter _
  · rw [List.mem_filter]
    constructor
    · rintro ⟨hmem, hdone⟩
      exact ⟨hregular.aligned boundary hmem, UInt64.lt_iff_toNat_lt.mpr (hregular.above boundary hmem),
        UInt64.le_iff_toNat_le.mpr (hregular.below boundary hmem),
        (isBoundary_iff hcompiled hwell hgathered (hvalid boundary hmem)).mp
          ((hiff boundary hmem).mp hdone)⟩
    · intro hboundary
      have hspan : contract.ValidSpan ⟨bundle.span.start, boundary⟩ :=
        ⟨(UInt64.lt_iff_toNat_lt.mp hboundary.above).le, hwell.span.start_dvd, hboundary.aligned⟩
      have hrestorable := (isBoundary_iff hcompiled hwell hgathered hspan).mpr hboundary.available
      -- group zero demands the boundary's own page
      have hmem : boundary ∈ all := mem_map_toNat.mp (hrestorable.groupZero hcompiled hspan hall _
        (UInt64.lt_iff_toNat_lt.mp hboundary.above) le_rfl hboundary.aligned)
      exact ⟨hmem, (hiff boundary hmem).mpr hrestorable⟩

theorem wellFormed_of_checks (hspan : contract.validateSpan bundle.ns bundle.span = .ok ())
    (hcoverage : contract.gatherCoverage bundle.span bundle.components ∅ = .ok coverage)
    (hgroups : checkGroups coverage contract.requirements.keys = .ok ()) :
    contract.WellFormed bundle := by
  obtain ⟨hns, hspan⟩ := validateSpan_ok_iff.mp hspan
  obtain ⟨hgathers, hlookup⟩ := gatherCoverage_ok hcoverage
  refine ⟨hns, hspan, hgathers.registered, hgathers.distinct, fun group hgroup => ?_,
    hgathers.regular⟩
  have hfound := checkGroups_ok_iff.mp hgroups group (ExtTreeMap.mem_keys.mpr hgroup)
  obtain ⟨pageEnds, hends⟩ := Option.isSome_iff_exists.mp (mem_iff_isSome_getElem?.mp hfound)
  obtain ⟨component, hcomponent, hgroup, -⟩ : ∃ component ∈ bundle.components,
      component.group = group ∧ component.pageEnds = pageEnds := by
    simpa using (hlookup group pageEnds).mp hends
  exact ⟨component, hcomponent, hgroup⟩

theorem wellFormed_of_restorableBoundaries {boundaries : List UInt64}
    (hok : contract.restorableBoundaries bundle = .ok boundaries) : contract.WellFormed bundle := by
  obtain ⟨_, hspan, hok⟩ := bind_eq_ok hok
  obtain ⟨coverage, hcoverage, hok⟩ := bind_eq_ok hok
  obtain ⟨_, hgroups, -⟩ := bind_eq_ok hok
  exact wellFormed_of_checks hspan hcoverage hgroups

theorem noPanic_restorableBoundaries (hcompiled : contract.Compiled) (bundle : StateBundle) :
    NoPanic (contract.restorableBoundaries bundle) := by
  by_cases hwell : contract.WellFormed bundle
  · obtain ⟨boundaries, hok, -⟩ := restorableBoundaries_ok hcompiled hwell
    rw [hok]
    exact noPanic_ok boundaries
  · refine (noPanic_validateSpan _ _).bind fun _ hspan => ?_
    refine (noPanic_gatherCoverage _ _ _).bind fun coverage hcoverage => ?_
    refine (noPanic_checkGroups _ _).bind fun _ hgroups => ?_
    exact absurd (wellFormed_of_checks hspan hcoverage hgroups) hwell

/-! ### Shards -/

section Shards

variable {ns : String} {span : TokenRange}
  {common : List UInt64}

def MemCommon (common : Option (ExtTreeSet UInt64)) (boundary : UInt64) : Prop :=
  ∀ set, common = some set → boundary ∈ set

variable {shards : List (List (UInt32 × List UInt32))}

theorem intersectShards_ok :
    ∀ {common result : Option (ExtTreeSet UInt64)},
      contract.intersectShards ns span shards common = .ok result →
      (result = none → shards = []) ∧ ∀ boundary, MemCommon result boundary ↔
        MemCommon common boundary ∧ ∀ groups ∈ shards, ∃ own,
          contract.shardBoundaries ns span groups = .ok own ∧ boundary ∈ own := by
  induction shards with
  | nil =>
    intro common result hok
    obtain rfl : common = result := by simpa [intersectShards] using hok
    simp
  | cons groups shards ih =>
    intro common result hok
    obtain ⟨own, hown, hok⟩ := bind_eq_ok hok
    obtain ⟨hnone, hmem⟩ := ih hok
    have hstep : ∀ boundary, MemCommon (some (common.elim (ExtTreeSet.ofList own)
        fun common => common.filter (ExtTreeSet.ofList own).contains)) boundary ↔
          MemCommon common boundary ∧ boundary ∈ own := by
      intro boundary
      cases common with
      | none => simp [MemCommon, ExtTreeSet.mem_ofList]
      | some common =>
        simp [MemCommon, ExtTreeSet.mem_filter, ExtTreeSet.contains_ofList]
    refine ⟨fun hresult => ?_, fun boundary => ?_⟩
    · obtain rfl := hnone hresult
      simp [intersectShards, hresult] at hok
    · rw [hmem, hstep, List.forall_mem_cons, and_assoc]
      simp [hown]

theorem intersectShards_of_forall
    (hshards : ∀ groups ∈ shards, ∃ own, contract.shardBoundaries ns span groups = .ok own)
    (common : Option (ExtTreeSet UInt64)) :
    ∃ result, contract.intersectShards ns span shards common = .ok result := by
  induction shards generalizing common with
  | nil => exact ⟨common, rfl⟩
  | cons groups shards ih =>
    obtain ⟨own, hown⟩ := hshards groups List.mem_cons_self
    rw [intersectShards, hown]
    exact ih (fun groups' hmem => hshards groups' (List.mem_cons_of_mem _ hmem)) _

theorem commonBoundaries_sorted (hok : contract.commonBoundaries ns span shards = .ok common) :
    common.Pairwise (· < ·) := by
  obtain ⟨_, -, hok⟩ := bind_eq_ok hok
  obtain ⟨result, -, hok⟩ := bind_eq_ok hok
  cases hok
  exact ExtTreeSet.ordered_toList.imp Std.compare_eq_lt.mp

theorem mem_commonBoundaries_iff (hne : shards ≠ [])
    (hok : contract.commonBoundaries ns span shards = .ok common) (boundary : UInt64) :
    boundary ∈ common ↔ ∀ groups ∈ shards, ∃ own,
      contract.shardBoundaries ns span groups = .ok own ∧ boundary ∈ own := by
  obtain ⟨_, -, hok⟩ := bind_eq_ok hok
  obtain ⟨result, hresult, hok⟩ := bind_eq_ok hok
  cases hok
  obtain ⟨hnone, hmem⟩ := intersectShards_ok hresult
  cases result with
  | none => exact absurd (hnone rfl) hne
  | some set =>
    have hcommon : boundary ∈ set ↔ MemCommon (some set) boundary := by simp [MemCommon]
    rw [Option.getD_some, ExtTreeSet.mem_toList, hcommon, hmem]
    simp [MemCommon]

theorem validateSpan_of_shardBoundaries {groups : List (UInt32 × List UInt32)} {own : List UInt64}
    (hown : contract.shardBoundaries ns span groups = .ok own) :
    contract.validateSpan ns span = .ok () := by
  obtain ⟨bundle, hbundle, hown⟩ := bind_eq_ok hown
  have hwell := wellFormed_of_restorableBoundaries hown
  obtain ⟨components, -, hbundle⟩ := bind_eq_ok hbundle
  cases hbundle
  exact validateSpan_ok_iff.mpr ⟨hwell.ns_eq, hwell.span⟩

theorem commonBoundaries_of_forall (hne : shards ≠ [])
    (hshards : ∀ groups ∈ shards, ∃ own, contract.shardBoundaries ns span groups = .ok own) :
    ∃ common, contract.commonBoundaries ns span shards = .ok common := by
  obtain ⟨groups, hgroups⟩ := List.exists_mem_of_ne_nil shards hne
  obtain ⟨own, hown⟩ := hshards groups hgroups
  obtain ⟨result, hresult⟩ := intersectShards_of_forall hshards none
  refine ⟨(result.getD ∅).toList, ?_⟩
  rw [commonBoundaries, validateSpan_of_shardBoundaries hown]
  simp only [hresult, bind, Except.bind, pure, Except.pure]

theorem find?_reverse_eq_some_iff (hsorted : common.Pairwise (· < ·)) (limit boundary : UInt64) :
    common.reverse.find? (· ≤ limit) = some boundary ↔
      boundary ∈ common ∧ boundary ≤ limit ∧
        ∀ other ∈ common, other ≤ limit → other ≤ boundary := by
  have hreverse : common.reverse.Pairwise fun a b => b < a := List.pairwise_reverse.mpr hsorted
  have hfound : ∀ found, common.reverse.find? (· ≤ limit) = some found →
      found ∈ common ∧ found ≤ limit ∧ ∀ other ∈ common, other ≤ limit → other ≤ found := by
    intro found hfind
    obtain ⟨hle, before, after, hsplit, hbefore⟩ := List.find?_eq_some_iff_append.mp hfind
    rw [hsplit] at hreverse
    have hafter := (List.pairwise_append.mp hreverse).2.1
    have hmem : ∀ other, other ∈ common ↔ other ∈ before ++ found :: after := by
      intro other
      rw [← hsplit, List.mem_reverse]
    refine ⟨by simp [hmem], by simpa using hle, fun other hother hlimit => ?_⟩
    rcases List.mem_append.mp ((hmem other).mp hother) with hin | hin
    · simpa [hlimit] using hbefore other hin
    · rcases List.mem_cons.mp hin with rfl | hin
      · exact UInt64.le_refl _
      · exact UInt64.le_of_lt (List.rel_of_pairwise_cons hafter hin)
  constructor
  · exact hfound boundary
  · rintro ⟨hmem, hle, hgreatest⟩
    cases hfind : common.reverse.find? (· ≤ limit) with
    | none => simpa [hle] using List.find?_eq_none.mp hfind boundary (List.mem_reverse.mpr hmem)
    | some found =>
      -- the one found and the one given bound each other
      obtain ⟨hin, hlimit, hmax⟩ := hfound found hfind
      rw [UInt64.le_antisymm (hgreatest found hin hlimit) (hmax boundary hmem hle)]

theorem selectBoundary_ok
    (hok : contract.commonBoundaries ns span shards = .ok common) (limit : UInt64) :
    ∃ choice, contract.selectBoundary ns span shards limit = .ok choice ∧
      (∀ boundary, choice = some boundary ↔ boundary ∈ common ∧ boundary ≤ limit ∧
        ∀ other ∈ common, other ≤ limit → other ≤ boundary) ∧
      (choice = none ↔ ¬∃ boundary ∈ common, boundary ≤ limit) := by
  refine ⟨common.reverse.find? (· ≤ limit), ?_, ?_, ?_⟩
  · simp only [selectBoundary, hok, bind, Except.bind, pure, Except.pure]
  · exact find?_reverse_eq_some_iff (commonBoundaries_sorted hok) limit
  · simp

theorem forall_of_intersectShards {common result : Option (ExtTreeSet UInt64)}
    (hok : contract.intersectShards ns span shards common = .ok result) :
    ∀ groups ∈ shards, ∃ own, contract.shardBoundaries ns span groups = .ok own := by
  induction shards generalizing common with
  | nil => nofun
  | cons groups shards ih =>
    obtain ⟨own, hown, hrest⟩ := bind_eq_ok hok
    exact List.forall_mem_cons.mpr ⟨⟨own, hown⟩, ih hrest⟩

/-- **Agreement of shards**: shards that have answered in another order, or more than once, agree on
the same boundaries, and the same boundary is selected. -/
theorem boundaries_shard_order {shards' : List (List (UInt32 × List UInt32))} (hne : shards ≠ [])
    (hsame : ∀ groups, groups ∈ shards' ↔ groups ∈ shards)
    (hok : contract.commonBoundaries ns span shards = .ok common) :
    contract.commonBoundaries ns span shards' = .ok common ∧
      ∀ limit, contract.selectBoundary ns span shards' limit =
        contract.selectBoundary ns span shards limit := by
  have hne' : shards' ≠ [] := by
    obtain ⟨groups, hgroups⟩ := List.exists_mem_of_ne_nil shards hne
    exact List.ne_nil_of_mem ((hsame groups).mpr hgroups)
  obtain ⟨_, -, hrest⟩ := bind_eq_ok hok
  obtain ⟨_, hshards, -⟩ := bind_eq_ok hrest
  have hall : ∀ groups ∈ shards', ∃ own, contract.shardBoundaries ns span groups = .ok own :=
    fun groups hgroups => forall_of_intersectShards hshards groups ((hsame groups).mp hgroups)
  obtain ⟨common', hok'⟩ := commonBoundaries_of_forall hne' hall
  obtain rfl : common' = common := by
    apply (commonBoundaries_sorted hok').eq_of_mem_iff (commonBoundaries_sorted hok)
    intro boundary
    simp only [mem_commonBoundaries_iff hne' hok', mem_commonBoundaries_iff hne hok, hsame]
  exact ⟨hok', fun limit => by rw [selectBoundary, selectBoundary, hok, hok']⟩

end Shards

/-- **Restorable boundaries.** For a compiled contract: well-formed evidence yields, in increasing
order, exactly the boundaries of the specification; the common boundaries of some shards are the
intersection of theirs; and the selected boundary is the greatest common one within the limit. -/
theorem boundaries_exact {name : String} {pageTokens : UInt64}
    {requirements : List StateRequirement}
    (hcompile : compile name pageTokens requirements = .ok contract) :
    (∀ bundle, contract.WellFormed bundle →
      ∃ boundaries, contract.restorableBoundaries bundle = .ok boundaries ∧
        boundaries.Pairwise (· < ·) ∧
        ∀ boundary, boundary ∈ boundaries ↔ contract.IsBoundary bundle boundary) ∧
    (∀ ns span shards, shards ≠ [] →
      ((∀ groups ∈ shards, ∃ own, contract.shardBoundaries ns span groups = .ok own) →
        ∃ common, contract.commonBoundaries ns span shards = .ok common) ∧
      ∀ common, contract.commonBoundaries ns span shards = .ok common →
        common.Pairwise (· < ·) ∧ ∀ boundary, boundary ∈ common ↔ ∀ groups ∈ shards, ∃ own,
          contract.shardBoundaries ns span groups = .ok own ∧ boundary ∈ own) ∧
    ∀ ns span shards limit common, contract.commonBoundaries ns span shards = .ok common →
      ∃ choice, contract.selectBoundary ns span shards limit = .ok choice ∧
        (∀ boundary, choice = some boundary ↔ boundary ∈ common ∧ boundary ≤ limit ∧
          ∀ other ∈ common, other ≤ limit → other ≤ boundary) ∧
        (choice = none ↔ ¬∃ boundary ∈ common, boundary ≤ limit) :=
  ⟨fun _ hwell => restorableBoundaries_ok (compiled_of_compile hcompile) hwell,
    fun _ _ _ hne => ⟨commonBoundaries_of_forall hne, fun _ hok =>
      ⟨commonBoundaries_sorted hok, mem_commonBoundaries_iff hne hok⟩⟩,
    fun _ _ _ limit _ hok => selectBoundary_ok hok limit⟩

def hybridRequirements : List StateRequirement :=
  [⟨0, [.attentionKv], .wholePrefix⟩, ⟨1, [.slidingWindowKv], .window 20⟩,
    ⟨2, [.recurrentCheckpoint, .convolutionState], .checkpoint⟩]

def hybrid : RecoveryContract :=
  let rules : ExtTreeMap UInt32 (Option UInt64) := ∅
  ⟨"hybrid", 16, ((rules.insert 0 none).insert 1 (some 2)).insert 2 (some 1)⟩

def hybridShards : List (List (UInt32 × List UInt32)) :=
  [[(0, [0, 1, 2, 3]), (1, [1, 2, 3]), (2, [0, 2])], [(0, [0, 1, 2]), (1, [0, 1, 2]), (2, [1, 2])]]

theorem boundaries_exact_hybrid :
    compile "hybrid" 16 hybridRequirements = .ok hybrid ∧
      hybrid.commonBoundaries "hybrid" ⟨32, 96⟩ hybridShards = .ok [80] ∧
      ∃ choice, hybrid.selectBoundary "hybrid" ⟨32, 96⟩ hybridShards 95 = .ok choice ∧
        ∀ boundary, choice = some boundary ↔ boundary ∈ [80] ∧ boundary ≤ 95 ∧
          ∀ other ∈ [80], other ≤ 95 → other ≤ boundary := by
  have hcompile : compile "hybrid" 16 hybridRequirements = .ok hybrid := by decide +kernel
  have hcommon : hybrid.commonBoundaries "hybrid" ⟨32, 96⟩ hybridShards = .ok [80] := by
    decide +kernel
  obtain ⟨choice, hchoice, hsome, -⟩ :=
    (boundaries_exact hcompile).2.2 "hybrid" ⟨32, 96⟩ hybridShards 95 [80] hcommon
  exact ⟨hcompile, hcommon, choice, hchoice, hsome⟩

theorem boundaries_shard_order_hybrid :
    hybrid.commonBoundaries "hybrid" ⟨32, 96⟩ hybridShards.reverse = .ok [80] := by
  have hcommon : hybrid.commonBoundaries "hybrid" ⟨32, 96⟩ hybridShards = .ok [80] := by
    decide +kernel
  exact (boundaries_shard_order (by decide) (fun _ => List.mem_reverse) hcommon).1

end RecoveryContract

end OrbitKV
