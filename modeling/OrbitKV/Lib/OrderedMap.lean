import Mathlib.Tactic

/-!
# Ordered maps

Lookups after an update, and loops over the entries that change only what is observed at the entry's
own key.
-/

namespace OrbitKV

open Std ExtTreeMap

section Lookup

variable {K V : Type*} [Ord K] [TransOrd K] [LawfulEqOrd K]
  {m : ExtTreeMap K V} {k a : K}

theorem getElem?_insert_eq_some {v b : V}
    (hfound : (m.insert k v)[a]? = some b) : k = a ∧ v = b ∨ k ≠ a ∧ m[a]? = some b := by
  rw [getElem?_insert] at hfound
  split at hfound
  case isTrue heq => exact .inl ⟨compare_eq_iff_eq.mp heq, Option.some.inj hfound⟩
  case isFalse hne => exact .inr ⟨fun heq => hne (compare_eq_iff_eq.mpr heq), hfound⟩

theorem getElem?_insert_of_ne {v : V} (hne : k ≠ a) : (m.insert k v)[a]? = m[a]? := by
  simp [getElem?_insert, hne]

theorem getElem?_erase_eq_some {b : V}
    (hfound : (m.erase k)[a]? = some b) : k ≠ a ∧ m[a]? = some b := by
  rw [getElem?_erase] at hfound
  split at hfound
  case isTrue => cases hfound
  case isFalse hne => exact ⟨fun heq => hne (compare_eq_iff_eq.mpr heq), hfound⟩

theorem insert_insert (m : ExtTreeMap K V) (k : K) (v w : V) :
    (m.insert k v).insert k w = m.insert k w := by
  apply ext_getElem?
  intro a
  simp only [getElem?_insert]
  split <;> rfl

end Lookup

section KeyedFold

variable {K V S O : Type*}
  {entries : List (K × V)}

theorem foldl_observe {α : Type*} {f : S → α → S} (obs : S → O) {l : List α}
    (hstep : ∀ s, ∀ a ∈ l, obs (f s a) = obs s) (s : S) : obs (l.foldl f s) = obs s := by
  induction l generalizing s with
  | nil => rfl
  | cons a l ih =>
    rw [List.foldl_cons, ih fun s b hb => hstep s b (List.mem_cons_of_mem _ hb)]
    exact hstep s a List.mem_cons_self

structure KeyedStep (f : S → K × V → S) (obs : S → K → O) (g : K → V → O → O)
    (entries : List (K × V)) : Prop where
  self : ∀ s k v, (k, v) ∈ entries → obs (f s (k, v)) k = g k v (obs s k)
  other : ∀ s k v k', (k, v) ∈ entries → k' ≠ k → obs (f s (k, v)) k' = obs s k'

variable {f : S → K × V → S} {obs : S → K → O} {g : K → V → O → O}

theorem KeyedStep.tail {entry : K × V}
    (hstep : KeyedStep f obs g (entry :: entries)) : KeyedStep f obs g entries where
  self s k v hmem := hstep.self s k v (List.mem_cons_of_mem _ hmem)
  other s k v k' hmem := hstep.other s k v k' (List.mem_cons_of_mem _ hmem)

theorem KeyedStep.foldl_of_notMem (hstep : KeyedStep f obs g entries)
    {k : K} (hk : ∀ v, (k, v) ∉ entries) (s : S) : obs (entries.foldl f s) k = obs s k := by
  induction entries generalizing s with
  | nil => rfl
  | cons entry entries ih =>
    obtain ⟨k', v⟩ := entry
    have hne : k ≠ k' := by
      rintro rfl
      exact hk v List.mem_cons_self
    rw [List.foldl_cons, ih hstep.tail fun v hv => hk v (List.mem_cons_of_mem _ hv)]
    exact hstep.other s k' v k List.mem_cons_self hne

theorem KeyedStep.foldl_of_mem (hstep : KeyedStep f obs g entries)
    (hdistinct : entries.Pairwise fun a b => a.1 ≠ b.1) {k : K} {v : V}
    (hmem : (k, v) ∈ entries) (s : S) : obs (entries.foldl f s) k = g k v (obs s k) := by
  induction entries generalizing s with
  | nil => cases hmem
  | cons entry entries ih =>
    rw [List.pairwise_cons] at hdistinct
    rw [List.foldl_cons]
    rcases List.mem_cons.mp hmem with rfl | hrest
    · rw [hstep.tail.foldl_of_notMem fun v' hv' => hdistinct.1 (k, v') hv' rfl]
      exact hstep.self s k v List.mem_cons_self
    · rw [ih hstep.tail hdistinct.2 hrest]
      congr 1
      exact hstep.other s entry.1 entry.2 k List.mem_cons_self (hdistinct.1 (k, v) hrest).symm

end KeyedFold

section MapFold

variable {K V S O : Type*} [Ord K] [TransOrd K] [LawfulEqOrd K]
variable {f : S → K × V → S} {obs : S → K → O} {g : K → V → O → O}

theorem distinct_fst_toList (m : ExtTreeMap K V) : m.toList.Pairwise fun a b => a.1 ≠ b.1 :=
  ExtTreeMap.distinct_keys_toList.imp fun {_ _} hne heq => hne (compare_eq_iff_eq.mpr heq)

theorem KeyedStep.foldl_toList {m : ExtTreeMap K V} (hstep : KeyedStep f obs g m.toList) (s : S)
    (k : K) : obs (m.toList.foldl f s) k = m[k]?.elim (obs s k) fun v => g k v (obs s k) := by
  cases hk : m[k]? with
  | none =>
    refine hstep.foldl_of_notMem (fun v hv => ?_) s
    rw [mem_toList_iff_getElem?_eq_some, hk] at hv
    cases hv
  | some v =>
    exact hstep.foldl_of_mem (distinct_fst_toList m) (mem_toList_iff_getElem?_eq_some.mpr hk) s

end MapFold

end OrbitKV
