import OrbitKV.Proof.RecoveryBoundaries

/-!
# Demands, reads and boundaries agree

A client reads the slice that `readRange` returns, the server checks the number of blocks; both
count the same pages.
-/

namespace OrbitKV

open Std RecoveryDemand

/-! ### The check of a demand -/

variable {demand : RecoveryDemand}

theorem RecoveryDemand.ordered_of_rangeInvalid {range : TokenRange}
    (hvalid : demand.rangeInvalid range = false) : range.start ≤ range.stop := by
  simp only [rangeInvalid, Bool.or_eq_false_iff, decide_eq_false_iff_not, UInt64.not_lt] at hvalid
  exact hvalid.1.1.1.2

theorem RecoveryDemand.noPanic_selectGroup (hpage : demand.pageTokens ≠ 0)
    (group : UInt32) (groups : List (UInt32 × TokenRange)) (previous : Option UInt32)
    (selected : Option UInt64) : NoPanic (demand.selectGroup group groups previous selected) := by
  induction groups generalizing previous selected with
  | nil => exact noPanic_ok _
  | cons entry groups ih =>
    rw [selectGroup]
    split
    · exact noPanic_fail _
    split
    · exact noPanic_fail _
    next hvalid =>
    split
    · have hordered := ordered_of_rangeInvalid (Bool.not_eq_true _ ▸ hvalid)
      simp only [(checkedSub_of_le hordered).1, checkedDiv, if_neg hpage, orPanic, bind,
        Except.bind]
      exact ih _ _
    · exact ih _ _

theorem RecoveryDemand.noPanic_validate (demand : RecoveryDemand) (group : UInt32) (blocks : Nat) :
    NoPanic (demand.validate group blocks) := by
  unfold validate
  split
  · exact noPanic_fail _
  next hspan =>
  split
  · exact noPanic_fail _
  have hpage : demand.pageTokens ≠ 0 := by
    rintro hzero
    simp [hzero] at hspan
  refine (noPanic_selectGroup hpage _ _ _ _).bind fun selected _ => ?_
  cases selected with
  | none => exact noPanic_fail _
  | some pages =>
    dsimp only
    split
    · exact noPanic_ok _
    · exact noPanic_fail _

theorem RecoveryDemand.selectGroup_eq (hpage : demand.pageTokens ≠ 0) {group : UInt32}
    {groups : List (UInt32 × TokenRange)} (hsorted : groups.Pairwise fun a b => a.1 < b.1)
    (hvalid : ∀ entry ∈ groups, demand.rangeInvalid entry.2 = false) {previous : Option UInt32}
    (hprevious : ∀ id ∈ previous, ∀ entry ∈ groups, id < entry.1) (selected : Option UInt64) :
    demand.selectGroup group groups previous selected =
      .ok ((groups.find? (·.1 = group)).elim selected fun entry =>
        some ((entry.2.stop - entry.2.start) / demand.pageTokens)) := by
  induction groups generalizing previous selected with
  | nil => rfl
  | cons entry groups ih =>
    obtain ⟨hfirst, hsorted⟩ := List.pairwise_cons.mp hsorted
    obtain ⟨hentry, hvalid⟩ := List.forall_mem_cons.mp hvalid
    have hlater : ∀ id ∈ some entry.1, ∀ later ∈ groups, id < later.1 := by
      rintro id ⟨⟩ later hmem
      exact hfirst later hmem
    have hnew : ¬previous.any (entry.1 ≤ ·) := by
      cases previous with
      | none => simp
      | some id => simpa using hprevious id rfl entry List.mem_cons_self
    rw [selectGroup, if_neg hnew, if_neg (by simp [hentry])]
    by_cases hgroup : entry.1 = group
    · have hnone : groups.find? (·.1 = group) = none := by
        refine List.find?_eq_none.mpr fun later hmem => ?_
        simpa [← hgroup] using (UInt32.ne_of_lt (hfirst later hmem)).symm
      have hsub := (checkedSub_of_le (ordered_of_rangeInvalid hentry)).1
      simp only [if_pos hgroup, hsub, checkedDiv, if_neg hpage, orPanic, bind, Except.bind]
      rw [ih hsorted hvalid hlater, hnone, List.find?_cons_of_pos (by simpa using hgroup)]
      rfl
    · rw [if_neg hgroup, ih hsorted hvalid hlater, List.find?_cons_of_neg (by simpa using hgroup)]

namespace RecoveryContract

variable {contract : RecoveryContract}
  {span needed : TokenRange} {group : UInt32} {pages : Option UInt64}
  {groups : List (UInt32 × List UInt32)}

/-! ### Panic freedom -/

theorem noPanic_requiredRanges (hcompiled : contract.Compiled) (ns : String) (span : TokenRange) :
    NoPanic (contract.requiredRanges ns span) := by
  refine (noPanic_validateSpan ns span).bind fun _ hvalid => ?_
  obtain ⟨-, hspan⟩ := validateSpan_ok_iff.mp hvalid
  refine noPanic_mapM fun ⟨group, pages⟩ _ => ?_
  obtain ⟨needed, hneeded, -⟩ := requiredSpan_ok hcompiled hspan pages
  simp only [hneeded]
  exact noPanic_ok _

theorem noPanic_readRange (hcompiled : contract.Compiled) (ns : String) (span : TokenRange)
    (group : UInt32) (batchLen : Nat) : NoPanic (contract.readRange ns span group batchLen) := by
  cases hvalid : contract.validateSpan ns span with
  | error failure =>
    intro hpanic
    rw [readRange, hvalid] at hpanic
    obtain rfl : failure = .panic := Except.error.inj hpanic
    exact noPanic_validateSpan ns span hvalid
  | ok =>
    obtain ⟨rfl, hspan⟩ := validateSpan_ok_iff.mp hvalid
    cases hgroup : contract.requirements[group]? with
    | none =>
      simp only [readRange, hvalid, hgroup]
      exact noPanic_fail _
    | some pages =>
      obtain ⟨needed, hneeded, -⟩ := requiredSpan_ok hcompiled hspan pages
      rw [readRange_eq hcompiled hspan hgroup hneeded]
      dsimp only
      split
      · exact noPanic_fail _
      · exact noPanic_ok _

theorem noPanic_shardBundle (ns : String) (span : TokenRange)
    (groups : List (UInt32 × List UInt32)) : NoPanic (contract.shardBundle ns span groups) := by
  refine (noPanic_mapM fun entry _ => ?_).bind fun _ _ => noPanic_ok _
  refine (noPanic_mapM fun position _ => ?_).bind fun _ _ => noPanic_ok _
  cases contract.pageEnd span.start position with
  | none => exact noPanic_fail _
  | some pageEnd => exact noPanic_ok _

theorem noPanic_intersectShards (hcompiled : contract.Compiled) (ns : String) (span : TokenRange)
    (shards : List (List (UInt32 × List UInt32))) (common : Option (ExtTreeSet UInt64)) :
    NoPanic (contract.intersectShards ns span shards common) := by
  induction shards generalizing common with
  | nil => exact noPanic_ok _
  | cons groups shards ih =>
    refine NoPanic.bind ?_ fun own _ => ih _
    exact (noPanic_shardBundle ns span groups).bind fun bundle _ =>
      noPanic_restorableBoundaries hcompiled bundle

theorem noPanic_commonBoundaries (hcompiled : contract.Compiled) (ns : String) (span : TokenRange)
    (shards : List (List (UInt32 × List UInt32))) :
    NoPanic (contract.commonBoundaries ns span shards) :=
  (noPanic_validateSpan ns span).bind fun _ _ =>
    (noPanic_intersectShards hcompiled ns span shards none).bind fun _ _ => noPanic_ok _

/-! ### One number of pages -/

theorem rangeInvalid_of_needed (hcompiled : contract.Compiled) (hspan : contract.ValidSpan span)
    (hgroup : contract.requirements[group]? = some pages)
    (hneeded : contract.Needed span pages needed) (groups : List (UInt32 × TokenRange)) :
    rangeInvalid ⟨contract.pageTokens, span, groups⟩ needed = false := by
  have hle : needed.start.toNat ≤ span.stop.toNat := Nat.le.intro hneeded.start_add
  have haligned := isMultipleOf_iff.mpr hneeded.start_dvd
  have hempty : needed.isEmpty = true → span.isEmpty = true := by
    intro hempty
    have hsame : needed.start = needed.stop := by simpa [TokenRange.isEmpty] using hempty
    have hnot : ¬span.start.toNat < span.stop.toNat := fun hlt =>
      (hneeded.start_lt hcompiled hspan hgroup hlt).ne (congrArg UInt64.toNat hsame)
    have hequal := Nat.le_antisymm hspan.ordered (Nat.not_lt.mp hnot)
    simpa [TokenRange.isEmpty] using UInt64.toNat_inj.mp hequal
  simp only [rangeInvalid, Bool.or_eq_false_iff, decide_eq_false_iff_not,
    UInt64.not_lt, UInt64.le_iff_toNat_le, haligned, hneeded.stop_eq, ne_eq, not_true_eq_false,
    not_false_eq_true, Bool.not_true, and_true]
  refine ⟨⟨hneeded.start_le, hle⟩, ?_⟩
  cases hnone : needed.isEmpty with
  | false => rfl
  | true => simp [hempty hnone]

theorem validate_demand_iff (hcompiled : contract.Compiled) (hspan : contract.ValidSpan span)
    (hgroup : contract.requirements[group]? = some pages)
    (hneeded : contract.requiredSpan span pages = .ok needed) :
    ∃ demand, contract.demand contract.ns span = .ok demand ∧ ∀ blocks,
      demand.validate group blocks = .ok () ↔
        blocks = (needed.stop.toNat - needed.start.toNat) / contract.pageTokens.toNat := by
  obtain ⟨ranges, hranges, hsorted, hmem⟩ := requiredRanges_ok hcompiled hspan
  refine ⟨⟨contract.pageTokens, span, ranges⟩, ?_, fun blocks => ?_⟩
  · simp only [demand, hranges, bind, Except.bind, pure, Except.pure]
  have hpage : contract.pageTokens ≠ 0 := toNat_pos_iff.mp hcompiled.page_pos
  have hvalid : ∀ entry ∈ ranges,
      rangeInvalid ⟨contract.pageTokens, span, ranges⟩ entry.2 = false := by
    rintro ⟨id, range⟩ hentry
    obtain ⟨pages', hrequired, hrange⟩ := (hmem id range).mp hentry
    obtain ⟨range', hrange', hspec⟩ := requiredSpan_ok hcompiled hspan pages'
    obtain rfl := Except.ok.inj (hrange.symm.trans hrange')
    exact rangeInvalid_of_needed hcompiled hspan hrequired hspec ranges
  have hhead : ranges.head? = some (0, span) := by
    obtain ⟨whole, hwhole, hspec⟩ := requiredSpan_ok hcompiled hspan none
    obtain rfl := hspec.eq_span hspan
    have hzero := (hmem 0 whole).mpr ⟨none, hcompiled.groupZero, hwhole⟩
    cases ranges with
    | nil => cases hzero
    | cons entry ranges =>
      rcases List.mem_cons.mp hzero with rfl | hlater
      · rfl
      · exact absurd (List.rel_of_pairwise_cons hsorted hlater) (by simp)
  have hentry := (hmem group needed).mpr ⟨pages, hgroup, hneeded⟩
  have hfind : ranges.find? (·.1 = group) = some (group, needed) := by
    cases hfind : ranges.find? (·.1 = group) with
    | none => simpa using List.find?_eq_none.mp hfind _ hentry
    | some entry =>
      have hid : entry.1 = group := by simpa using List.find?_some hfind
      have hin : (group, entry.2) ∈ ranges := hid ▸ List.mem_of_find?_eq_some hfind
      obtain ⟨pages', hrequired, hrange⟩ := (hmem group entry.2).mp hin
      obtain rfl := Option.some.inj (hgroup.symm.trans hrequired)
      rw [Except.ok.inj (hneeded.symm.trans hrange), ← hid]
  have hordered := ordered_of_rangeInvalid (hvalid _ hentry)
  have hstart := isMultipleOf_iff.mpr hspan.start_dvd
  have hstop := isMultipleOf_iff.mpr hspan.stop_dvd
  have hspanOrdered : ¬span.stop < span.start :=
    UInt64.not_lt.mpr (UInt64.le_iff_toNat_le.mpr hspan.ordered)
  have hselect : selectGroup ⟨contract.pageTokens, span, ranges⟩ group ranges none
      none = .ok (some ((needed.stop - needed.start) / contract.pageTokens)) := by
    rw [selectGroup_eq hpage hsorted hvalid (by simp), hfind]
    rfl
  rw [← (checkedSub_of_le hordered).2, ← UInt64.toNat_div]
  simp only [validate, hpage, hspanOrdered, hstart, hstop, hhead, hselect,
    decide_false, Bool.not_true, Bool.or_self, Bool.false_eq_true, if_false, ne_eq,
    not_true_eq_false, bind, Except.bind]
  split
  case isTrue heq => exact iff_of_true rfl heq
  case isFalse hne => exact iff_of_false nofun hne

/-! ### Indices of a common boundary -/

theorem pageEnd_eq_some {start : UInt64} {position : UInt32} {pageEnd : UInt64}
    (hsome : contract.pageEnd start position = some pageEnd) :
    pageEnd.toNat = (position.toNat + 1) * contract.pageTokens.toNat + start.toNat := by
  obtain ⟨tokens, htokens, hsome⟩ := Option.bind_eq_some_iff.mp hsome
  obtain ⟨count, hcount, htokens⟩ := Option.bind_eq_some_iff.mp htokens
  rw [checkedAdd_eq_some hsome, checkedMul_eq_some htokens, checkedAdd_eq_some hcount]
  simp

theorem exists_position {ns : String} {bundle : StateBundle}
    (hbundle : contract.shardBundle ns span groups = .ok bundle) {pageEnd : UInt64}
    (havailable : Available bundle group pageEnd) :
    ∃ positions, (group, positions) ∈ groups ∧ ∃ position ∈ positions,
      pageEnd.toNat = (position.toNat + 1) * contract.pageTokens.toNat + span.start.toNat := by
  obtain ⟨components, hcomponents, hbundle⟩ := bind_eq_ok hbundle
  cases hbundle
  obtain ⟨component, hcomponent, rfl, hpageEnd⟩ := havailable
  obtain ⟨⟨group, positions⟩, hentry, hcomponent⟩ := mem_of_mapM_eq_ok hcomponents hcomponent
  obtain ⟨pageEnds, hpageEnds, hcomponent⟩ := bind_eq_ok hcomponent
  cases hcomponent
  obtain ⟨position, hposition, hend⟩ := mem_of_mapM_eq_ok hpageEnds hpageEnd
  refine ⟨positions, hentry, position, hposition, ?_⟩
  cases hsome : contract.pageEnd span.start position with
  | none =>
    rw [hsome] at hend
    cases hend
  | some found =>
    rw [hsome] at hend
    exact Except.ok.inj hend ▸ pageEnd_eq_some hsome

theorem page_of_index {start position stop page index : Nat} (hstart : page ∣ start)
    (hposition : page ∣ position) (hle : start ≤ position) (hpage : 0 < page)
    (hlow : (position - start) / page ≤ index) (hhigh : index < (stop - start) / page) :
    position < start + (index + 1) * page ∧ start + (index + 1) * page ≤ stop := by
  obtain ⟨count, hcount⟩ := Nat.dvd_sub hposition hstart
  rw [hcount, Nat.mul_div_cancel_left _ hpage] at hlow
  have hbelow : (index + 1) * page ≤ stop - start :=
    (Nat.mul_le_mul_right page hhigh).trans (Nat.div_mul_le_self _ _)
  have habove : page * count < (index + 1) * page := by
    rw [Nat.mul_comm page]
    exact Nat.mul_lt_mul_of_pos_right (Nat.lt_succ_of_le hlow) hpage
  have hpos : 0 < (index + 1) * page := Nat.mul_pos index.succ_pos hpage
  omega

theorem slice_length {start position stop page : Nat} (hstart : page ∣ start)
    (hposition : page ∣ position) (hle : start ≤ position) (hstop : position ≤ stop)
    (hpage : 0 < page) :
    (stop - position) / page = (stop - start) / page - (position - start) / page := by
  obtain ⟨count, hcount⟩ := Nat.dvd_sub hposition hstart
  have hrest : stop - position = stop - start - page * count := by omega
  rw [hcount, Nat.mul_div_cancel_left _ hpage, hrest, Nat.sub_mul_div]

theorem isBoundary_of_shardBoundaries (hcompiled : contract.Compiled) {ns : String}
    {own : List UInt64} (hown : contract.shardBoundaries ns span groups = .ok own)
    {boundary : UInt64} (hboundary : boundary ∈ own) :
    ∃ bundle, contract.shardBundle ns span groups = .ok bundle ∧ bundle.span = span ∧
      ns = contract.ns ∧ contract.ValidSpan ⟨span.start, boundary⟩ ∧
      contract.IsBoundary bundle boundary := by
  obtain ⟨bundle, hbundle, hown⟩ := bind_eq_ok hown
  have hwell := wellFormed_of_restorableBoundaries hown
  obtain ⟨boundaries, hboundaries, -, hmem⟩ := restorableBoundaries_ok hcompiled hwell
  obtain rfl := Except.ok.inj (hown.symm.trans hboundaries)
  have hspec := (hmem boundary).mp hboundary
  obtain ⟨rfl, rfl⟩ : bundle.ns = ns ∧ bundle.span = span := by
    obtain ⟨components, -, hbundle⟩ := bind_eq_ok hbundle
    cases hbundle
    exact ⟨rfl, rfl⟩
  exact ⟨bundle, hbundle, rfl, hwell.ns_eq,
    ⟨(UInt64.lt_iff_toNat_lt.mp hspec.above).le, hwell.span.start_dvd, hspec.aligned⟩, hspec⟩

theorem position_of_isBoundary (hcompiled : contract.Compiled) {bundle : StateBundle}
    (hbundle : contract.shardBundle contract.ns bundle.span groups = .ok bundle) {boundary : UInt64}
    (hspec : contract.IsBoundary bundle boundary)
    (hspan : contract.ValidSpan ⟨bundle.span.start, boundary⟩)
    (hgroup : contract.requirements[group]? = some pages)
    (hneeded : contract.requiredSpan ⟨bundle.span.start, boundary⟩ pages = .ok needed) {index : Nat}
    (hlow : (needed.start.toNat - bundle.span.start.toNat) / contract.pageTokens.toNat ≤ index)
    (hhigh : index < (needed.stop.toNat - bundle.span.start.toNat) / contract.pageTokens.toNat) :
    ∃ positions, (group, positions) ∈ groups ∧ ∃ position ∈ positions, position.toNat = index := by
  obtain ⟨needed', hneeded', hlast⟩ := requiredSpan_ok hcompiled hspan pages
  obtain rfl := Except.ok.inj (hneeded.symm.trans hneeded')
  obtain ⟨ranges, hranges, -, hin⟩ := requiredRanges_ok hcompiled hspan
  obtain ⟨ranges', hranges', hall⟩ := hspec.available
  have hns : bundle.ns = contract.ns := by
    obtain ⟨components, -, hbundle⟩ := bind_eq_ok hbundle
    exact congrArg StateBundle.ns (Except.ok.inj hbundle).symm
  rw [hns] at hranges'
  obtain rfl := Except.ok.inj (hranges.symm.trans hranges')
  -- the page whose end is `pageEnd` is the one at `index`
  obtain ⟨habove, hbelow⟩ := page_of_index hspan.start_dvd hlast.start_dvd hlast.start_le
    hcompiled.page_pos hlow hhigh
  generalize hpageEnd : bundle.span.start.toNat + (index + 1) * contract.pageTokens.toNat =
    pageEnd at habove hbelow
  have htoNat : (UInt64.ofNat pageEnd).toNat = pageEnd :=
    UInt64.toNat_ofNat_of_lt' (hbelow.trans_lt needed.stop.toNat_lt)
  have hdvd : contract.pageTokens.toNat ∣ pageEnd :=
    hpageEnd ▸ hspan.start_dvd.add (Nat.dvd_mul_left _ _)
  obtain ⟨positions, hpositions, position, hposition, hend⟩ := exists_position hbundle
    (hall (group, needed) ((hin group needed).mpr ⟨pages, hgroup, hneeded⟩) (.ofNat pageEnd)
      (UInt64.lt_iff_toNat_lt.mpr (htoNat.symm ▸ habove))
      (UInt64.le_iff_toNat_le.mpr (htoNat.symm ▸ hbelow)) (htoNat.symm ▸ hdvd))
  refine ⟨positions, hpositions, position, hposition, ?_⟩
  have hsame : (position.toNat + 1) * contract.pageTokens.toNat =
      (index + 1) * contract.pageTokens.toNat := by omega
  exact Nat.succ.inj (Nat.mul_right_cancel hcompiled.page_pos hsame)

/-- **Demand agreement.** For a compiled contract nothing panics; the demand of a valid span accepts
as many blocks as the slice of the batch has; and at a common boundary every shard has listed each
index of the slice. -/
theorem demand_agreement {name : String} {pageTokens : UInt64}
    {requirements : List StateRequirement}
    (hcompile : compile name pageTokens requirements = .ok contract) :
    ((∀ ns span, NoPanic (contract.demand ns span)) ∧
      (∀ demand group blocks, NoPanic (validate demand group blocks)) ∧
      (∀ ns span group batchLen, NoPanic (contract.readRange ns span group batchLen)) ∧
      ∀ ns span shards, NoPanic (contract.commonBoundaries ns span shards)) ∧
    (∀ ns span group, contract.validateSpan ns span = .ok () → group ∈ contract.requirements →
      ∃ demand start stop, contract.demand ns span = .ok demand ∧
        (∀ batchLen, contract.readRange ns span group batchLen =
          if batchLen < stop then fail .invalidSpan else .ok (start, stop)) ∧
        ∀ blocks, demand.validate group blocks = .ok () ↔ blocks = stop - start) ∧
    ∀ ns span shards common boundary, contract.commonBoundaries ns span shards = .ok common →
      boundary ∈ common → ∀ groups ∈ shards, ∀ group ∈ contract.requirements,
        ∃ start stop, (∀ batchLen, contract.readRange ns ⟨span.start, boundary⟩ group batchLen =
            if batchLen < stop then fail .invalidSpan else .ok (start, stop)) ∧
          ∀ index, start ≤ index → index < stop → ∃ positions, (group, positions) ∈ groups ∧
            ∃ position ∈ positions, position.toNat = index := by
  have hcompiled := compiled_of_compile hcompile
  refine ⟨⟨?_, noPanic_validate, noPanic_readRange hcompiled,
    noPanic_commonBoundaries hcompiled⟩, ?_, ?_⟩
  · exact fun ns span => (noPanic_requiredRanges hcompiled ns span).bind fun _ _ => noPanic_ok _
  · intro ns span group hvalid hgroup
    obtain ⟨rfl, hspan⟩ := validateSpan_ok_iff.mp hvalid
    obtain ⟨pages, hpages⟩ := Option.isSome_iff_exists.mp
      (ExtTreeMap.mem_iff_isSome_getElem?.mp hgroup)
    obtain ⟨needed, hneeded, hlast⟩ := requiredSpan_ok hcompiled hspan pages
    obtain ⟨demand, hdemand, hvalidate⟩ := validate_demand_iff hcompiled hspan hpages hneeded
    refine ⟨demand, _, _, hdemand, readRange_eq hcompiled hspan hpages hneeded, fun blocks => ?_⟩
    have hstop : needed.start.toNat ≤ needed.stop.toNat := by
      rw [hlast.stop_eq]
      exact Nat.le.intro hlast.start_add
    rw [hvalidate, slice_length hspan.start_dvd hlast.start_dvd hlast.start_le hstop
      hcompiled.page_pos]
  · intro ns span shards common boundary hcommon hboundary groups hgroups group hgroup
    obtain ⟨pages, hpages⟩ := Option.isSome_iff_exists.mp
      (ExtTreeMap.mem_iff_isSome_getElem?.mp hgroup)
    obtain ⟨own, hown, hin⟩ := (mem_commonBoundaries_iff (List.ne_nil_of_mem hgroups) hcommon
      boundary).mp hboundary groups hgroups
    obtain ⟨bundle, hbundle, rfl, rfl, hspan, hspec⟩ :=
      isBoundary_of_shardBoundaries hcompiled hown hin
    obtain ⟨needed, hneeded, -⟩ := requiredSpan_ok hcompiled hspan pages
    exact ⟨_, _, readRange_eq hcompiled hspan hpages hneeded, fun index =>
      position_of_isBoundary hcompiled hbundle hspec hspan hpages hneeded⟩

theorem demand_agreement_hybrid :
    compile "hybrid" 16 hybridRequirements = .ok hybrid ∧
      hybrid.commonBoundaries "hybrid" ⟨32, 96⟩ hybridShards = .ok [80] ∧
      ∀ groups ∈ hybridShards, ∃ start stop,
        (∀ batchLen, hybrid.readRange "hybrid" ⟨32, 80⟩ 1 batchLen =
          if batchLen < stop then fail .invalidSpan else .ok (start, stop)) ∧
        ∀ index, start ≤ index → index < stop → ∃ positions, ((1 : UInt32), positions) ∈ groups ∧
          ∃ position ∈ positions, position.toNat = index := by
  have hcompile : compile "hybrid" 16 hybridRequirements = .ok hybrid := by decide +kernel
  have hcommon : hybrid.commonBoundaries "hybrid" ⟨32, 96⟩ hybridShards = .ok [80] := by
    decide +kernel
  exact ⟨hcompile, hcommon, fun groups hgroups =>
    (demand_agreement hcompile).2.2 "hybrid" ⟨32, 96⟩ hybridShards [80] 80 hcommon
      List.mem_cons_self groups hgroups 1 (by decide +kernel)⟩

end RecoveryContract

end OrbitKV
