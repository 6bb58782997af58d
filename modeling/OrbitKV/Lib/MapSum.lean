import OrbitKV.Lib.OrderedMap

/-!
# Sums over the entries of a map

Sums over the entries of an ordered map, as sums over any finite set that has its keys.
-/

namespace OrbitKV

open Std ExtTreeMap

section MapSum

variable {K V W : Type*} [Ord K] [TransOrd K]

def mapSum (m : ExtTreeMap K V) (f : K → V → Nat) : Nat :=
  (m.toList.map fun entry => f entry.1 entry.2).sum

def sumAt (m : ExtTreeMap K V) (f : K → V → Nat) (k : K) : Nat :=
  m[k]?.elim 0 (f k)

variable {m : ExtTreeMap K V} {m' : ExtTreeMap K W} {f : K → V → Nat} {g : K → W → Nat} {k : K}
  {v : V}

theorem sumAt_of_getElem? (hk : m[k]? = some v) : sumAt m f k = f k v := by
  rw [sumAt, hk]
  rfl

theorem sumAt_of_none (hk : m[k]? = none) : sumAt m f k = 0 := by
  rw [sumAt, hk]
  rfl

variable [LawfulEqOrd K]

theorem mapSum_eq_sum (s : Finset K) (hs : ∀ k ∈ m, k ∈ s) : mapSum m f = ∑ k ∈ s, sumAt m f k := by
  classical
  have hkeys : m.keys.Nodup := nodup_keys
  have hlist : (m.toList.map fun entry => f entry.1 entry.2) = m.keys.map (sumAt m f) := by
    rw [← map_fst_toList_eq_keys, List.map_map]
    apply List.map_congr_left
    intro entry hentry
    exact (sumAt_of_getElem? (mem_toList_iff_getElem?_eq_some.mp hentry)).symm
  calc mapSum m f = (m.keys.map (sumAt m f)).sum := congrArg List.sum hlist
    _ = ∑ k ∈ m.keys.toFinset, sumAt m f k := (List.sum_toFinset _ hkeys).symm
    _ = ∑ k ∈ s, sumAt m f k := by
        apply Finset.sum_subset
        · intro k hk
          exact hs k (ExtTreeMap.mem_keys.mp (List.mem_toFinset.mp hk))
        · intro k _ hk
          apply sumAt_of_none
          apply getElem?_eq_none
          exact fun hmem => hk (List.mem_toFinset.mpr (ExtTreeMap.mem_keys.mpr hmem))

theorem mapSum_add_sumAt (k : K) (hagree : ∀ k', k' ≠ k → sumAt m f k' = sumAt m' g k') :
    mapSum m f + sumAt m' g k = mapSum m' g + sumAt m f k := by
  classical
  let s := insert k (m.keys.toFinset ∪ m'.keys.toFinset)
  have hk : k ∈ s := Finset.mem_insert_self _ _
  have hm : ∀ k ∈ m, k ∈ s := fun k hk => Finset.mem_insert_of_mem
    (Finset.mem_union_left _ (List.mem_toFinset.mpr (ExtTreeMap.mem_keys.mpr hk)))
  have hm' : ∀ k ∈ m', k ∈ s := fun k hk => Finset.mem_insert_of_mem
    (Finset.mem_union_right _ (List.mem_toFinset.mpr (ExtTreeMap.mem_keys.mpr hk)))
  have hrest : ∑ k ∈ s.erase k, sumAt m f k = ∑ k ∈ s.erase k, sumAt m' g k :=
    Finset.sum_congr rfl fun k' hk' => hagree k' (Finset.ne_of_mem_erase hk')
  rw [mapSum_eq_sum s hm, mapSum_eq_sum s hm', ← Finset.sum_erase_add s _ hk,
    ← Finset.sum_erase_add s _ hk, hrest]
  omega

theorem mapSum_congr (hagree : ∀ k, sumAt m f k = sumAt m' g k) : mapSum m f = mapSum m' g := by
  classical
  let s := m.keys.toFinset ∪ m'.keys.toFinset
  have hm : ∀ k ∈ m, k ∈ s := fun k hk =>
    Finset.mem_union_left _ (List.mem_toFinset.mpr (ExtTreeMap.mem_keys.mpr hk))
  have hm' : ∀ k ∈ m', k ∈ s := fun k hk =>
    Finset.mem_union_right _ (List.mem_toFinset.mpr (ExtTreeMap.mem_keys.mpr hk))
  rw [mapSum_eq_sum s hm, mapSum_eq_sum s hm']
  exact Finset.sum_congr rfl fun k _ => hagree k

theorem mapSum_insert (m : ExtTreeMap K V) (f : K → V → Nat) (k : K) (v : V) :
    mapSum (m.insert k v) f + sumAt m f k = mapSum m f + f k v := by
  have hself : sumAt (m.insert k v) f k = f k v := sumAt_of_getElem? getElem?_insert_self
  rw [mapSum_add_sumAt k, hself]
  intro k' hne
  rw [sumAt, sumAt, getElem?_insert_of_ne hne.symm]

theorem mapSum_erase (m : ExtTreeMap K V) (f : K → V → Nat) (k : K) :
    mapSum (m.erase k) f + sumAt m f k = mapSum m f := by
  have hself : sumAt (m.erase k) f k = 0 := sumAt_of_none getElem?_erase_self
  rw [mapSum_add_sumAt k, hself, Nat.add_zero]
  intro k' hne
  rw [sumAt, sumAt, getElem?_erase, if_neg]
  exact fun heq => hne (compare_eq_iff_eq.mp heq).symm

theorem sumAt_le_mapSum (m : ExtTreeMap K V) (f : K → V → Nat) (k : K) :
    sumAt m f k ≤ mapSum m f := by
  have herase := mapSum_erase m f k
  omega

theorem mapSum_insert_eq {v' : V} (hk : m[k]? = some v) (hsame : f k v' = f k v) :
    mapSum (m.insert k v') f = mapSum m f := by
  have hinsert := mapSum_insert m f k v'
  rw [sumAt_of_getElem? hk, hsame] at hinsert
  omega

@[simp]
theorem mapSum_empty (f : K → V → Nat) : mapSum (∅ : ExtTreeMap K V) f = 0 := by
  rw [mapSum_eq_sum ∅ fun k hk => absurd hk not_mem_empty, Finset.sum_empty]

end MapSum

section Count

variable {α : Type*}

theorem sum_map_toNat (p : α → Bool) (l : List α) :
    (l.map fun a => (p a).toNat).sum = l.countP p := by
  induction l with
  | nil => rfl
  | cons a l ih =>
    rw [List.map_cons, List.sum_cons, ih, List.countP_cons]
    cases p a <;> simp [Nat.add_comm]

variable [DecidableEq α]

theorem countP_add_toNat {p q : α → Bool} {l : List α} (hnodup : l.Nodup) (a : α)
    (hagree : ∀ b, b ≠ a → p b = q b) :
    l.countP p + (decide (a ∈ l) && q a).toNat = l.countP q + (decide (a ∈ l) && p a).toNat := by
  induction l with
  | nil => rfl
  | cons b l ih =>
    obtain ⟨hnotMem, hnodup⟩ := List.nodup_cons.mp hnodup
    have ih := ih hnodup
    rw [List.countP_cons, List.countP_cons]
    by_cases hb : b = a
    · subst hb
      simp only [hnotMem, decide_false, Bool.false_and, Bool.toNat_false] at ih
      simp only [List.mem_cons_self, decide_true, Bool.true_and]
      cases p b <;> cases q b <;> simp <;> omega
    · have hmem : decide (a ∈ b :: l) = decide (a ∈ l) := by
        simp [Ne.symm hb]
      rw [hmem, hagree b hb]
      omega

end Count

end OrbitKV
