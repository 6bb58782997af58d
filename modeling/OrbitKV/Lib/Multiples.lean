import Mathlib.Order.Interval.Finset.Nat
import Mathlib.Data.Nat.Factorization.Basic
import OrbitKV.Lib.Bisect

/-!
# Counting the multiples in a sorted list

A sorted list of multiples of `p` holds every multiple in an interval exactly when it holds as many
as the interval has.
-/

namespace OrbitKV

open List

theorem PrefixClosed.partitionPoint_eq_countP {α : Type*} {p : α → Bool} {xs : List α}
    (hxs : PrefixClosed p xs) : partitionPoint p xs = xs.countP p := by
  have hle := hxs.partitionPoint_le_length
  have hsplit := take_append_drop (partitionPoint p xs) xs
  have hbefore : (xs.take (partitionPoint p xs)).countP p = partitionPoint p xs := by
    rw [List.countP_eq_length.mpr, length_take, Nat.min_eq_left hle]
    intro x hx
    obtain ⟨i, hi, rfl⟩ := List.mem_iff_getElem.mp hx
    rw [length_take] at hi
    rw [getElem_take]
    exact (hxs.lt_partitionPoint_iff (by omega)).mp (by omega)
  have hafter : (xs.drop (partitionPoint p xs)).countP p = 0 := by
    rw [countP_eq_zero]
    intro x hx
    obtain ⟨i, hi, rfl⟩ := List.mem_iff_getElem.mp hx
    rw [length_drop] at hi
    rw [getElem_drop, ← hxs.lt_partitionPoint_iff (by omega)]
    omega
  calc partitionPoint p xs
      = (xs.take (partitionPoint p xs)).countP p + (xs.drop (partitionPoint p xs)).countP p := by
        rw [hbefore, hafter, Nat.add_zero]
    _ = xs.countP p := by rw [← countP_append, hsplit]

section Multiples

variable {p a b : Nat}

theorem card_multiples_Ioc (hab : a ≤ b) (ha : p ∣ a) :
    ((Finset.Ioc a b).filter (p ∣ ·)).card = (b - a) / p := by
  have hsplit : (Finset.Ioc 0 b).filter (p ∣ ·) =
      (Finset.Ioc 0 a).filter (p ∣ ·) ∪ (Finset.Ioc a b).filter (p ∣ ·) := by
    ext x
    simp only [Finset.mem_filter, Finset.mem_Ioc, Finset.mem_union]
    omega
  have hdisjoint : Disjoint ((Finset.Ioc 0 a).filter (p ∣ ·))
      ((Finset.Ioc a b).filter (p ∣ ·)) := by
    rw [Finset.disjoint_left]
    intro x hx hx'
    simp only [Finset.mem_filter, Finset.mem_Ioc] at hx hx'
    omega
  have hcard := congrArg Finset.card hsplit
  rw [Finset.card_union_of_disjoint hdisjoint, Nat.Ioc_filter_dvd_card_eq_div,
    Nat.Ioc_filter_dvd_card_eq_div] at hcard
  have hsub : b / p = a / p + (b - a) / p := by
    obtain ⟨c, rfl⟩ := Nat.exists_eq_add_of_le hab
    obtain ⟨k, rfl⟩ := ha
    rcases Nat.eq_zero_or_pos p with rfl | hp
    · simp
    · rw [Nat.add_sub_cancel_left, Nat.mul_add_div hp, Nat.mul_div_cancel_left k hp]
  omega

theorem countP_le_add_countP_Ioc (hab : a ≤ b) (xs : List Nat) :
    xs.countP (· ≤ a) + xs.countP (fun x => a < x && x ≤ b) = xs.countP (· ≤ b) := by
  induction xs with
  | nil => rfl
  | cons x xs ih =>
    simp only [countP_cons, Bool.and_eq_true, decide_eq_true_eq]
    split <;> split <;> split <;> omega

theorem countP_eq_iff_forall_mem {xs : List Nat} (hsorted : xs.Pairwise (· < ·))
    (hmultiples : ∀ x ∈ xs, p ∣ x) (hab : a ≤ b) (ha : p ∣ a) :
    xs.countP (fun x => a < x && x ≤ b) = (b - a) / p ↔ ∀ x, a < x → x ≤ b → p ∣ x → x ∈ xs := by
  have hnodup : (xs.filter fun x => a < x && x ≤ b).Nodup :=
    (hsorted.imp fun {_ _} hlt => hlt.ne).filter _
  have hsubset : (xs.filter fun x => a < x && x ≤ b).toFinset ⊆
      (Finset.Ioc a b).filter (p ∣ ·) := by
    intro x hx
    simp only [mem_toFinset, mem_filter, Bool.and_eq_true, decide_eq_true_eq] at hx
    simp only [Finset.mem_filter, Finset.mem_Ioc]
    exact ⟨hx.2, hmultiples x hx.1⟩
  have hcard : (xs.filter fun x => a < x && x ≤ b).toFinset.card =
      xs.countP fun x => a < x && x ≤ b := by
    rw [toFinset_card_of_nodup hnodup, countP_eq_length_filter]
  rw [← card_multiples_Ioc hab ha, ← hcard]
  constructor
  · intro heq x hax hxb hx
    have hall := Finset.eq_of_subset_of_card_le hsubset heq.ge
    have hmem : x ∈ (Finset.Ioc a b).filter (p ∣ ·) := by
      simp [hax, hxb, hx]
    rw [← hall] at hmem
    exact (List.mem_filter.mp (List.mem_toFinset.mp hmem)).1
  · intro hall
    refine congrArg Finset.card (hsubset.antisymm fun x hx => ?_)
    simp only [Finset.mem_filter, Finset.mem_Ioc] at hx
    simp only [mem_toFinset, mem_filter, Bool.and_eq_true, decide_eq_true_eq]
    exact ⟨hall x hx.1.1 hx.1.2 hx.2, hx.1⟩

/-! ### Sorted lists -/

section Sorted

variable {α : Type*} {f : α → Nat} {xs : List α}

section

variable (hsorted : xs.Pairwise fun x y => f x < f y)

include hsorted

theorem prefixClosed_le (n : Nat) : PrefixClosed (fun x => f x ≤ n) xs :=
  hsorted.imp fun {x y} hlt hle => by
    simp only [decide_eq_true_eq] at hle ⊢
    omega

theorem partitionPoint_le_eq_countP (n : Nat) :
    partitionPoint (fun x => f x ≤ n) xs = (xs.map f).countP (· ≤ n) := by
  rw [(prefixClosed_le hsorted n).partitionPoint_eq_countP, countP_map]
  rfl

theorem countP_le_getElem {i : Nat}
    (hi : i < xs.length) : (xs.map f).countP (· ≤ f xs[i]) = i + 1 := by
  have hclosed := prefixClosed_le hsorted (f xs[i])
  have hpoint : ∀ j, (hj : j < xs.length) →
      (j < partitionPoint (fun x => f x ≤ f xs[i]) xs ↔ j ≤ i) := by
    intro j hj
    rw [hclosed.lt_partitionPoint_iff hj, decide_eq_true_eq]
    have hpair := List.pairwise_iff_getElem.mp hsorted
    constructor
    · intro hle
      by_contra hlt
      have := hpair i j hi hj (by omega)
      omega
    · intro hle
      rcases Nat.eq_or_lt_of_le hle with rfl | hlt
      · exact le_rfl
      · exact (hpair j i hj hi hlt).le
  rw [← partitionPoint_le_eq_countP hsorted]
  have hle := hclosed.partitionPoint_le_length
  have hself := (hpoint i hi).mpr le_rfl
  by_contra hne
  have hnext := (hpoint (i + 1) (by omega)).mp (by omega)
  omega

theorem add_lt_getElem (habove : ∀ x ∈ xs, a < f x)
    {i : Nat} (hi : i < xs.length) : a + i < f xs[i] := by
  induction i with
  | zero => exact habove _ (getElem_mem hi)
  | succ i ih =>
    have hstep := List.pairwise_iff_getElem.mp hsorted i (i + 1) (by omega) hi (by omega)
    have := ih (by omega)
    omega

/-- **Coverage by partition points.** In a sorted list of multiples, the distance of two partition
points is the number of multiples between exactly when none of them is missing. -/
theorem partitionPoint_sub_eq_iff (hmultiples : ∀ x ∈ xs, p ∣ f x) (hab : a ≤ b) (ha : p ∣ a) :
    partitionPoint (fun x => f x ≤ a) xs ≤ partitionPoint (fun x => f x ≤ b) xs ∧
      (partitionPoint (fun x => f x ≤ b) xs - partitionPoint (fun x => f x ≤ a) xs = (b - a) / p ↔
        ∀ n, a < n → n ≤ b → p ∣ n → n ∈ xs.map f) := by
  rw [partitionPoint_le_eq_countP hsorted, partitionPoint_le_eq_countP hsorted]
  have hsplit := countP_le_add_countP_Ioc hab (xs.map f)
  refine ⟨by omega, ?_⟩
  rw [← countP_eq_iff_forall_mem (List.pairwise_map.mpr hsorted) (by simpa using hmultiples) hab ha]
  omega

theorem index_of_covered (hmultiples : ∀ x ∈ xs, p ∣ f x) (ha : p ∣ a) (habove : ∀ x ∈ xs, a < f x)
    {i : Nat} (hi : i < xs.length) (hcovered : ∀ n, a < n → n ≤ f xs[i] → p ∣ n → n ∈ xs.map f) :
    (f xs[i] - a) / p = i + 1 := by
  have hle := (habove _ (getElem_mem hi)).le
  have hcount := (countP_eq_iff_forall_mem (List.pairwise_map.mpr hsorted)
    (by simpa using hmultiples) hle ha).mpr hcovered
  have hsplit := countP_le_add_countP_Ioc hle (xs.map f)
  have hbelow : (xs.map f).countP (· ≤ a) = 0 := by
    rw [countP_eq_zero]
    intro n hn
    obtain ⟨x, hx, rfl⟩ := List.mem_map.mp hn
    simpa using habove x hx
  rw [← hcount, ← countP_le_getElem hsorted hi]
  omega

end

end Sorted

end Multiples

end OrbitKV
