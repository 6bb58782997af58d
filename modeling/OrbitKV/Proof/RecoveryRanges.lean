import OrbitKV.Lib.OrderedMap
import OrbitKV.State.Recovery

/-! # The ranges of a recovery contract -/

namespace OrbitKV

open Std

structure RecoveryContract.ValidSpan (contract : RecoveryContract) (span : TokenRange) : Prop where
  ordered : span.start.toNat ≤ span.stop.toNat
  start_dvd : contract.pageTokens.toNat ∣ span.start.toNat
  stop_dvd : contract.pageTokens.toNat ∣ span.stop.toNat

structure RecoveryContract.Compiled (contract : RecoveryContract) : Prop where
  page_pos : 0 < contract.pageTokens.toNat
  groupZero : contract.requirements[(0 : UInt32)]? = some none
  pages_pos : ∀ (group : UInt32) (pages : UInt64),
    contract.requirements[group]? = some (some pages) → 0 < pages.toNat

/-! ### Compilation -/

theorem pages_pos_of_rule {pageTokens : UInt64} (hpage : 0 < pageTokens.toNat)
    {rule : RecoveryRule} (hrule : rule.windowInvalid pageTokens = .ok false) {pages : UInt64}
    (hpages : rule.pages pageTokens = some pages) : 0 < pages.toNat := by
  cases rule with
  | wholePrefix => cases hpages
  | checkpoint =>
    cases hpages
    decide
  | window tokens =>
    cases hpages
    rw [RecoveryRule.windowInvalid] at hrule
    split at hrule
    · cases hrule
    · next htokens => exact divCeil_pos (toNat_pos_iff.mpr htokens) hpage

def PagesPos (rules : ExtTreeMap UInt32 (Option UInt64)) : Prop :=
  ∀ (group : UInt32) (pages : UInt64), rules[group]? = some (some pages) → 0 < pages.toNat

theorem compileRules_ok {pageTokens : UInt64} (hpage : 0 < pageTokens.toNat)
    {requirements : List StateRequirement} :
    ∀ {rules rules' : ExtTreeMap UInt32 (Option UInt64)}, PagesPos rules →
      compileRules pageTokens requirements rules = .ok rules' → PagesPos rules' := by
  induction requirements with
  | nil =>
    intro rules rules' hrules hok
    obtain rfl : rules = rules' := by simpa [compileRules] using hok
    exact hrules
  | cons requirement requirements ih =>
    intro rules rules' hrules hok
    unfold compileRules at hok
    split at hok
    · cases hok
    split at hok
    · cases hok
    obtain ⟨invalid, hwindow, hok⟩ := bind_eq_ok hok
    split at hok
    · cases hok
    next hvalid =>
    split at hok
    · cases hok
    refine ih (fun group pages hfound => ?_) hok
    obtain ⟨-, hpages⟩ | ⟨-, hold⟩ := getElem?_insert_eq_some hfound
    · rw [Bool.not_eq_true] at hvalid
      exact pages_pos_of_rule hpage (hvalid ▸ hwindow) hpages
    · exact hrules group pages hold

namespace RecoveryContract

variable {contract : RecoveryContract}
  {span needed : TokenRange}

theorem compiled_of_compile {ns : String} {pageTokens : UInt64}
    {requirements : List StateRequirement} (hok : compile ns pageTokens requirements = .ok contract) :
    contract.Compiled := by
  unfold compile at hok
  split at hok
  · cases hok
  next harguments =>
  obtain ⟨rules, hrules, hok⟩ := bind_eq_ok hok
  split at hok
  · cases hok
  next hzero =>
  cases hok
  have hpage : 0 < pageTokens.toNat := toNat_pos_iff.mpr fun hnil => harguments (.inr (.inl hnil))
  exact ⟨hpage, not_not.mp hzero, compileRules_ok hpage (by simp [PagesPos]) hrules⟩

/-! ### Ranges -/

theorem validateSpan_ok_iff {ns : String} :
    contract.validateSpan ns span = .ok () ↔ ns = contract.ns ∧ contract.ValidSpan span := by
  unfold validateSpan
  by_cases hns : ns = contract.ns
  · rw [if_neg (not_not.mpr hns)]
    split
    case isTrue hinvalid =>
      refine iff_of_false nofun fun ⟨_, hvalid⟩ => ?_
      have hstart := isMultipleOf_iff.mpr hvalid.start_dvd
      have hstop := isMultipleOf_iff.mpr hvalid.stop_dvd
      have hordered := hvalid.ordered
      simp only [Bool.or_eq_true, decide_eq_true_eq, UInt64.lt_iff_toNat_lt, hstart, hstop,
        Bool.not_true, Bool.false_eq_true, or_false] at hinvalid
      omega
    case isFalse hvalid =>
      simp only [Bool.or_eq_true, decide_eq_true_eq, UInt64.lt_iff_toNat_lt, not_or,
        Bool.not_eq_true, Bool.not_eq_false', isMultipleOf_iff] at hvalid
      exact iff_of_true rfl ⟨hns, by omega, hvalid.1.2, hvalid.2⟩
  · rw [if_pos hns]
    exact iff_of_false nofun fun hvalid => hns hvalid.1

theorem noPanic_validateSpan (ns : String) (span : TokenRange) :
    NoPanic (contract.validateSpan ns span) := by
  unfold validateSpan
  split
  · exact noPanic_fail _
  split
  · exact noPanic_fail _
  · exact noPanic_ok _

def pageCount (contract : RecoveryContract) (span : TokenRange) (pages : Option UInt64) : Nat :=
  min ((span.stop.toNat - span.start.toNat) / contract.pageTokens.toNat) (pages.getD maxWord).toNat

structure Needed (contract : RecoveryContract) (span : TokenRange) (pages : Option UInt64)
    (needed : TokenRange) : Prop where
  stop_eq : needed.stop = span.stop
  start_add : needed.start.toNat + contract.pageCount span pages * contract.pageTokens.toNat =
    span.stop.toNat
  start_le : span.start.toNat ≤ needed.start.toNat
  start_dvd : contract.pageTokens.toNat ∣ needed.start.toNat

theorem checkedDiv_pageTokens (hcompiled : contract.Compiled) (tokens : UInt64) :
    checkedDiv tokens contract.pageTokens = some (tokens / contract.pageTokens) :=
  if_neg (toNat_pos_iff.mp hcompiled.page_pos)

theorem requiredSpan_ok (hcompiled : contract.Compiled)
    (hspan : contract.ValidSpan span) (pages : Option UInt64) :
    ∃ needed, contract.requiredSpan span pages = .ok needed ∧
      contract.Needed span pages needed := by
  obtain ⟨hsub, htokens⟩ := checkedSub_of_le (UInt64.le_iff_toNat_le.mpr hspan.ordered)
  generalize hcount : min ((span.stop - span.start) / contract.pageTokens) (pages.getD maxWord) =
    count
  have hcountNat : count.toNat = contract.pageCount span pages := by
    rw [← hcount, toNat_min, UInt64.toNat_div, htokens, pageCount]
  have hused : count.toNat * contract.pageTokens.toNat ≤ span.stop.toNat - span.start.toNat := by
    rw [hcountNat, pageCount]
    exact (Nat.mul_le_mul_right _ (Nat.min_le_left _ _)).trans (Nat.div_mul_le_self _ _)
  have hbound := span.stop.toNat_lt
  obtain ⟨hmul, husedNat⟩ := checkedMul_of_lt (a := count) (b := contract.pageTokens) (by omega)
  obtain ⟨hstart, hstartNat⟩ := checkedSub_of_le (a := span.stop)
    (b := count * contract.pageTokens) (by rw [UInt64.le_iff_toNat_le]; omega)
  refine ⟨⟨span.stop - count * contract.pageTokens, span.stop⟩, ?_, rfl, ?_, ?_, ?_⟩
  · simp only [requiredSpan, hsub, checkedDiv_pageTokens hcompiled, orPanic, bind, Except.bind,
      hcount, hmul, hstart, pure, Except.pure]
  · rw [hstartNat, husedNat, ← hcountNat]
    omega
  · have hordered := hspan.ordered
    rw [hstartNat, husedNat]
    omega
  · rw [hstartNat, husedNat]
    exact Nat.dvd_sub hspan.stop_dvd (Nat.dvd_mul_left _ _)

theorem Needed.eq_span (hspan : contract.ValidSpan span)
    (hneeded : contract.Needed span none needed) : needed = span := by
  have hcount : contract.pageCount span none =
      (span.stop.toNat - span.start.toNat) / contract.pageTokens.toNat := by
    refine Nat.min_eq_left ((Nat.div_le_self _ _).trans ?_)
    have hbound := span.stop.toNat_lt
    have hmax : ((none : Option UInt64).getD maxWord).toNat = 2 ^ 64 - 1 := by decide
    omega
  have hadd := hneeded.start_add
  rw [hcount, Nat.div_mul_cancel (Nat.dvd_sub hspan.stop_dvd hspan.start_dvd)] at hadd
  have hordered := hspan.ordered
  have hstart : needed.start = span.start := UInt64.toNat_inj.mp (by omega)
  calc needed = ⟨needed.start, needed.stop⟩ := rfl
    _ = span := by rw [hstart, hneeded.stop_eq]

theorem Needed.start_lt (hcompiled : contract.Compiled) (hspan : contract.ValidSpan span)
    {group : UInt32} {pages : Option UInt64} (hgroup : contract.requirements[group]? = some pages)
    (hneeded : contract.Needed span pages needed) (hlt : span.start.toNat < span.stop.toNat) :
    needed.start.toNat < needed.stop.toNat := by
  have hpage := hcompiled.page_pos
  have hwhole : 0 < (span.stop.toNat - span.start.toNat) / contract.pageTokens.toNat :=
    Nat.div_pos (Nat.le_of_dvd (by omega) (Nat.dvd_sub hspan.stop_dvd hspan.start_dvd)) hpage
  have hrule : 0 < (pages.getD maxWord).toNat := by
    cases pages with
    | none => decide
    | some pages => exact hcompiled.pages_pos group pages hgroup
  have hcount : 0 < contract.pageCount span pages * contract.pageTokens.toNat :=
    Nat.mul_pos (lt_min hwhole hrule) hpage
  rw [hneeded.stop_eq, ← hneeded.start_add]
  omega

theorem pageIndex_ok (hcompiled : contract.Compiled) {start position : UInt64}
    (hle : start.toNat ≤ position.toNat) :
    contract.pageIndex start position =
      .ok ((position.toNat - start.toNat) / contract.pageTokens.toNat) := by
  obtain ⟨hsub, htokens⟩ := checkedSub_of_le (UInt64.le_iff_toNat_le.mpr hle)
  simp only [pageIndex, hsub, checkedDiv_pageTokens hcompiled, orPanic, bind, Except.bind, pure,
    Except.pure, UInt64.toNat_div, htokens]

theorem readRange_eq (hcompiled : contract.Compiled) (hspan : contract.ValidSpan span)
    {group : UInt32} {pages : Option UInt64} (hgroup : contract.requirements[group]? = some pages)
    (hneeded : contract.requiredSpan span pages = .ok needed) (batchLen : Nat) :
    contract.readRange contract.ns span group batchLen =
      let index (position : UInt64) :=
        (position.toNat - span.start.toNat) / contract.pageTokens.toNat
      if batchLen < index needed.stop then fail .invalidSpan
      else .ok (index needed.start, index needed.stop) := by
  obtain ⟨needed', hneeded', hspec⟩ := requiredSpan_ok hcompiled hspan pages
  obtain rfl : needed' = needed := Except.ok.inj (hneeded'.symm.trans hneeded)
  have hvalid : contract.validateSpan contract.ns span = .ok () :=
    validateSpan_ok_iff.mpr ⟨rfl, hspan⟩
  have hstop : span.start.toNat ≤ needed'.stop.toNat := by
    rw [hspec.stop_eq]
    exact hspan.ordered
  simp only [readRange, hvalid, hgroup, hneeded, pageIndex_ok hcompiled hspec.start_le,
    pageIndex_ok hcompiled hstop, bind, Except.bind, pure, Except.pure]

end RecoveryContract

end OrbitKV
