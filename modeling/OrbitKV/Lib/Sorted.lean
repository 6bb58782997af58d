import Mathlib.Data.List.Destutter
import Mathlib.Data.List.Sort
import OrbitKV.Lib.Bisect

/-!
# Sorted lists without duplicates

A list that is sorted and rid of neighbours that are equal increases strictly and keeps its members,
and a binary search of it decides membership.
-/

namespace OrbitKV

open List

variable {α : Type*} [LinearOrder α] {xs : List α} {x : α}

/-- `sort_unstable` followed by `dedup`. -/
def sortDedup (xs : List α) : List α :=
  (xs.insertionSort (· ≤ ·)).destutter (· ≠ ·)

theorem mem_destutter_ne : x ∈ xs.destutter (· ≠ ·) ↔ x ∈ xs := by
  constructor
  · exact fun hmem => (destutter_sublist _ xs).subset hmem
  cases xs with
  | nil => exact id
  | cons first rest =>
    rw [destutter_cons']
    intro hmem
    -- The element carried along is the last one kept, so that a dropped one equals it.
    induction rest generalizing first with
    | nil => exact hmem
    | cons second rest ih =>
      by_cases hne : first ≠ second
      · rw [destutter'_cons_pos _ hne]
        rcases List.mem_cons.mp hmem with rfl | hrest
        · exact mem_cons_self
        · exact mem_cons_of_mem _ (ih second hrest)
      · rw [destutter'_cons_neg _ hne]
        obtain rfl : first = second := not_not.mp hne
        apply ih
        rcases List.mem_cons.mp hmem with rfl | hrest
        · exact mem_cons_self
        · exact hrest

@[simp]
theorem mem_sortDedup : x ∈ sortDedup xs ↔ x ∈ xs := by
  rw [sortDedup, mem_destutter_ne, mem_insertionSort]

theorem sortDedup_pairwise (xs : List α) : (sortDedup xs).Pairwise (· < ·) := by
  have hle : (sortDedup xs).Pairwise (· ≤ ·) :=
    (pairwise_insertionSort _ xs).sublist (destutter_sublist _ _)
  have hne : (sortDedup xs).IsChain (· ≠ ·) := isChain_destutter _ _
  apply List.isChain_iff_pairwise.mp
  apply List.isChain_iff_getElem.mpr
  intro i hi
  apply lt_of_le_of_ne
  · exact List.pairwise_iff_getElem.mp hle i (i + 1) (by omega) hi (Nat.lt_succ_self i)
  · exact List.isChain_iff_getElem.mp hne i hi

theorem sortDedup_of_pairwise (hxs : xs.Pairwise (· < ·)) : sortDedup xs = xs := by
  have hsorted : xs.insertionSort (· ≤ ·) = xs := List.Pairwise.insertionSort_eq (hxs.imp le_of_lt)
  rw [sortDedup, hsorted]
  exact destutter_of_isChain _ _ (hxs.imp ne_of_lt).isChain

theorem isOk_binarySearchBy_iff (hxs : xs.Pairwise (· < ·)) :
    (binarySearchBy (fun y => compare y x) xs).isOk = true ↔ x ∈ xs := by
  obtain rfl | hne := eq_or_ne xs []
  · simp [binarySearchBy, Except.isOk, Except.toBool]
  have hbisected : Bisected (fun y => compare y x) xs := by
    refine hxs.imp fun {y z} hyz hgt => ?_
    exact compare_gt_iff_gt.mpr (lt_trans (compare_gt_iff_gt.mp hgt) hyz)
  have hw := window_bisectLoop hbisected hne
  unfold binarySearchBy
  generalize bisectLoop _ xs xs.length 0 xs.length = base at hw
  have hbase : base < xs.length := by have := hw.inside; omega
  simp only [getElem?_eq_getElem hbase, Option.map_some]
  have hfound : x ∈ xs ↔ xs[base] = x := by
    constructor
    · intro hmem
      obtain ⟨i, hi, rfl⟩ := getElem_of_mem hmem
      rcases Nat.lt_trichotomy i base with hlt | rfl | hgt
      · -- A match left of the base leaves the base greater, which only the first position may be.
        have hlt' := List.pairwise_iff_getElem.mp hxs i base hi hbase hlt
        exact absurd (compare_gt_iff_gt.mpr hlt') (hw.below base hbase (.inr ⟨rfl, by omega⟩))
      · rfl
      · have habove := hw.above i hi (by omega)
        rw [compare_eq_iff_eq.mpr rfl] at habove
        cases habove
    · rintro rfl
      exact getElem_mem hbase
  rw [hfound]
  rcases hcmp : compare xs[base] x with _ | _ | _
  · simp [Except.isOk, Except.toBool, (compare_lt_iff_lt.mp hcmp).ne]
  · simp [Except.isOk, Except.toBool, compare_eq_iff_eq.mp hcmp]
  · simp [Except.isOk, Except.toBool, (compare_gt_iff_gt.mp hcmp).ne']

end OrbitKV
