import Mathlib.Tactic

/-!
# Change logs and fuzzy snapshots

A copy that was scanned while a log of changes grew shows each key at its own moment; replaying the
changes since the scan began makes it exact.
-/

namespace OrbitKV

open List

structure ChangeKind (K R : Type*) where
  key : R → K
  present : R → Bool
  sequence : R → Nat

namespace ChangeKind

variable {K R : Type*} [DecidableEq K] (C : ChangeKind K R)
  {k : K} {r : R} {t s : Nat}

def outcome (r : R) : Option R :=
  if C.present r then some r else none

def lastChange (log : List R) (k : K) : Option R :=
  log.reverse.find? fun r => C.key r = k

def stateAt (log : List R) (n : Nat) (k : K) : Option R :=
  (C.lastChange (log.take n) k).bind C.outcome

def Numbered (log : List R) : Prop :=
  ∀ i, (hi : i < log.length) → C.sequence log[i] = i + 1

def window (log : List R) (a t : Nat) : List R :=
  (log.take t).drop a

def merge (r : R) (current : Option R) : Option R :=
  if current.any fun previous => C.sequence r < C.sequence previous then current else C.outcome r

variable {C}

/-! ### Last changes -/

theorem lastChange_append (xs ys : List R) (k : K) :
    C.lastChange (xs ++ ys) k = (C.lastChange ys k).or (C.lastChange xs k) := by
  simp [lastChange, find?_append]

theorem lastChange_mem {log : List R} (hlast : C.lastChange log k = some r) :
    r ∈ log ∧ C.key r = k := by
  refine ⟨List.mem_reverse.mp (mem_of_find?_eq_some hlast), ?_⟩
  simpa using find?_some hlast

theorem sequence_le_lastChange {log : List R}
    (hsorted : log.Pairwise fun x y => C.sequence x < C.sequence y) {r' : R}
    (hlast : C.lastChange log k = some r) (hmem : r' ∈ log) (hkey : C.key r' = k) :
    C.sequence r' ≤ C.sequence r := by
  obtain ⟨-, newer, older, hsplit, hnewer⟩ := List.find?_eq_some_iff_append.mp hlast
  rw [← mem_reverse, hsplit, mem_append, mem_cons] at hmem
  rcases hmem with hmem | rfl | hmem
  · have := hnewer r' hmem
    simp [hkey] at this
  · exact le_rfl
  · rw [← pairwise_reverse, hsplit, pairwise_append, pairwise_cons] at hsorted
    exact (hsorted.2.1.1 r' hmem).le

section Numbered

omit [DecidableEq K]

theorem Numbered.sorted {log : List R} (hlog : C.Numbered log) :
    log.Pairwise fun x y => C.sequence x < C.sequence y := by
  rw [pairwise_iff_getElem]
  intro i j hi hj hij
  rw [hlog i hi, hlog j hj]
  omega

theorem Numbered.window_sorted {log : List R} (hlog : C.Numbered log) (a t : Nat) :
    (window log a t).Pairwise fun x y => C.sequence x < C.sequence y :=
  hlog.sorted.sublist ((drop_sublist a _).trans (take_sublist t log))

theorem Numbered.mem_window_iff {log : List R} (hlog : C.Numbered log) {a t : Nat} {r : R} :
    r ∈ window log a t ↔ r ∈ log.take t ∧ a < C.sequence r := by
  constructor
  · intro hmem
    refine ⟨mem_of_mem_drop hmem, ?_⟩
    obtain ⟨i, hi, rfl⟩ := List.mem_iff_getElem.mp hmem
    rw [window, length_drop, length_take] at hi
    simp only [window, getElem_drop, getElem_take]
    rw [hlog (a + i) (by omega)]
    omega
  · rintro ⟨hmem, ha⟩
    obtain ⟨i, hi, rfl⟩ := List.mem_iff_getElem.mp hmem
    have hi' := hi
    rw [length_take] at hi'
    rw [getElem_take, hlog i (by omega)] at ha
    rw [window, mem_iff_getElem]
    refine ⟨i - a, by rw [length_drop]; omega, ?_⟩
    simp [show a + (i - a) = i by omega]

theorem Numbered.sequence_getLast? {log : List R} (hlog : C.Numbered log) {a t : Nat}
    (ht : t ≤ log.length) {last : R} (hlast : (window log a t).getLast? = some last) :
    C.sequence last = t := by
  have hlength : (window log a t).length = t - a := by
    rw [window, length_drop, length_take, Nat.min_eq_left ht]
  rw [getLast?_eq_getElem?, hlength] at hlast
  obtain ⟨hlt, rfl⟩ := List.getElem?_eq_some_iff.mp hlast
  simp only [window, getElem_drop, getElem_take]
  rw [hlog _ (by omega)]
  omega

end Numbered

/-! ### States -/

theorem stateAt_eq_window (log : List R) {a : Nat} (hat : a ≤ t) (k : K) :
    C.stateAt log t k =
      (C.lastChange (window log a t) k).elim (C.stateAt log a k) C.outcome := by
  have hsplit : log.take t = log.take a ++ window log a t :=
    calc log.take t = (log.take t).take a ++ (log.take t).drop a :=
          (take_append_drop a (log.take t)).symm
      _ = log.take a ++ window log a t := by
          rw [take_take, Nat.min_eq_left hat, window]
  rw [stateAt, hsplit, lastChange_append]
  cases C.lastChange (window log a t) k <;> rfl

theorem stateAt_of_lastChange_none {log : List R} {a : Nat}
    (hlast : C.lastChange (window log a t) k = none) (has : a ≤ s) (hst : s ≤ t) :
    C.stateAt log s k = C.stateAt log t k := by
  have hwindow : C.lastChange (window log s t) k = none := by
    rw [lastChange, find?_eq_none] at hlast ⊢
    intro r hr
    refine hlast r (List.mem_reverse.mpr ?_)
    have hdrop : window log s t = (window log a t).drop (s - a) := by
      simp [window, drop_drop, show a + (s - a) = s by omega]
    rw [mem_reverse, hdrop] at hr
    exact mem_of_mem_drop hr
  rw [stateAt_eq_window log hst, hwindow, Option.elim_none]

theorem stateAt_append (log more : List R) (hs : s ≤ log.length) :
    C.stateAt (log ++ more) s = C.stateAt log s := by
  funext k
  rw [stateAt, take_append_of_le_length hs, stateAt]

theorem stateAt_snoc (log : List R) (r : R) (k : K) :
    C.stateAt (log ++ [r]) (log.length + 1) k =
      if C.key r = k then C.outcome r else C.stateAt log log.length k := by
  rw [stateAt, take_of_length_le (by simp), lastChange_append, stateAt, take_length]
  by_cases hkey : C.key r = k <;> simp [lastChange, hkey]

theorem stateAt_eq_some {log : List R} (hstate : C.stateAt log s k = some r) :
    r ∈ log.take s ∧ C.key r = k ∧ C.present r = true := by
  obtain ⟨last, hlast, houtcome⟩ := Option.bind_eq_some_iff.mp hstate
  unfold outcome at houtcome
  split at houtcome
  case isTrue hpresent =>
    cases houtcome
    obtain ⟨hmem, hkey⟩ := lastChange_mem hlast
    exact ⟨hmem, hkey, hpresent⟩
  case isFalse => cases houtcome

/-! ### Fuzzy copies -/

def Fuzzy (C : ChangeKind K R) (log : List R) (covered : K → Prop) (a n : Nat)
    (m : K → Option R) : Prop :=
  ∀ k, covered k → ∃ s, a ≤ s ∧ s ≤ n ∧ m k = C.stateAt log s k

variable {log : List R} {covered : K → Prop} {a n : Nat} {m m' : K → Option R}

theorem Fuzzy.mono (hm : C.Fuzzy log covered a n m) {n' : Nat} (hn : n ≤ n') :
    C.Fuzzy log covered a n' m := by
  intro k hk
  obtain ⟨s, has, hsn, hstate⟩ := hm k hk
  exact ⟨s, has, hsn.trans hn, hstate⟩

theorem Fuzzy.append (hm : C.Fuzzy log covered a n m) (hn : n ≤ log.length) (more : List R) :
    C.Fuzzy (log ++ more) covered a n m := by
  intro k hk
  obtain ⟨s, has, hsn, hstate⟩ := hm k hk
  exact ⟨s, has, hsn, by rw [stateAt_append log more (hsn.trans hn), hstate]⟩

theorem Fuzzy.scan (hm : C.Fuzzy log covered a n m) {covered' : K → Prop} (han : a ≤ n)
    (hkept : ∀ k, covered k → m' k = m k)
    (hread : ∀ k, covered' k → ¬covered k → m' k = C.stateAt log n k) :
    C.Fuzzy log covered' a n m' := by
  intro k hk
  by_cases hold : covered k
  · rw [hkept k hold]
    exact hm k hold
  · exact ⟨n, han, le_rfl, hread k hk hold⟩

theorem Fuzzy.replay (hlog : C.Numbered log) (hm : C.Fuzzy log covered a n m)
    (hat : a ≤ t) (htn : t ≤ n)
    (hm' : ∀ k, covered k →
      m' k = (C.lastChange (window log a t) k).elim (m k) fun r => C.merge r (m k)) :
    C.Fuzzy log covered t n m' := by
  intro k hk
  obtain ⟨s, has, hsn, hstate⟩ := hm k hk
  rw [hm' k hk]
  cases hlast : C.lastChange (window log a t) k with
  | none =>
    rw [Option.elim_none, hstate]
    rcases Nat.le_total t s with hts | hst
    · exact ⟨s, hts, hsn, rfl⟩
    · exact ⟨t, le_rfl, htn, stateAt_of_lastChange_none hlast has hst⟩
  | some r =>
    rw [Option.elim_some, merge]
    split
    case isTrue hnewer =>
      -- what the copy shows is newer than the last change replayed, so it was read after `t`
      obtain ⟨r₀, hr₀, hlt⟩ := (Option.any_eq_true _ _).mp hnewer
      rw [decide_eq_true_eq] at hlt
      obtain ⟨hmem, hkey, -⟩ := stateAt_eq_some (hstate.symm.trans hr₀)
      refine ⟨s, ?_, hsn, hstate⟩
      by_contra hst
      have hr := (hlog.mem_window_iff.mp (lastChange_mem hlast).1).2
      have hwindow : r₀ ∈ window log a t :=
        hlog.mem_window_iff.mpr ⟨take_subset_take_left log (by omega) hmem, by omega⟩
      have := sequence_le_lastChange (hlog.window_sorted a t) hlast hwindow hkey
      omega
    case isFalse =>
      refine ⟨t, le_rfl, htn, ?_⟩
      rw [stateAt_eq_window log hat, hlast, Option.elim_some]

theorem Fuzzy.exact (hm : C.Fuzzy log covered n n m) (hk : covered k) :
    m k = C.stateAt log n k := by
  obtain ⟨s, hle, hge, hstate⟩ := hm k hk
  rwa [Nat.le_antisymm hge hle] at hstate

end ChangeKind

end OrbitKV
