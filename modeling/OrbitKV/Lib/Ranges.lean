import Mathlib.Data.List.Sort
import Mathlib.Data.Prod.Lex
import Mathlib.Tactic.Order
import OrbitKV.Lib.Bisect

/-!
# Sorted ranges

Half-open ranges sorted by where they start, of which no two neighbours overlap.
-/

namespace OrbitKV

variable {α : Type*} [LinearOrder α] {a b : α × α} {ranges : List (α × α)}

def Apart (a b : α × α) : Prop :=
  ∀ x, a.1 ≤ x ∧ x < a.2 → ¬ (b.1 ≤ x ∧ x < b.2)

theorem Apart.symm (hapart : Apart a b) : Apart b a := fun x hb ha => hapart x ha hb

theorem apart_iff (ha : a.1 < a.2) (hb : b.1 < b.2) : Apart a b ↔ ¬ (a.1 < b.2 ∧ b.1 < a.2) := by
  constructor
  · rintro hapart ⟨hab, hba⟩
    exact hapart (max a.1 b.1) ⟨le_max_left .., max_lt ha hba⟩ ⟨le_max_right .., max_lt hab hb⟩
  · rintro hmeet x ⟨hax, hxa⟩ ⟨hbx, hxb⟩
    exact hmeet ⟨hax.trans_lt hxb, hbx.trans_lt hxa⟩

def Before (a b : α × α) : Prop :=
  a.1 < a.2 ∧ a.2 ≤ b.1 ∧ b.1 < b.2

def sortRanges (ranges : List (α × α)) : List (α × α) :=
  ranges.mergeSort fun a b => toLex a ≤ toLex b

/-- `windows(2).any(..)`. -/
def neighboursOverlap (ranges : List (α × α)) : Bool :=
  (ranges.zip ranges.tail).any fun pair => pair.2.1 < pair.1.2

theorem neighboursOverlap_eq_false (hranges : ∀ range ∈ ranges, range.1 < range.2) :
    neighboursOverlap ranges = false ↔ ranges.Pairwise Before := by
  induction ranges with
  | nil => simp [neighboursOverlap]
  | cons first rest ih =>
    obtain ⟨hfirst, hrest⟩ := List.forall_mem_cons.mp hranges
    cases rest with
    | nil => simp [neighboursOverlap]
    | cons second rest =>
      have hsplit : neighboursOverlap (first :: second :: rest) = false ↔
          first.2 ≤ second.1 ∧ neighboursOverlap (second :: rest) = false := by
        simp [neighboursOverlap]
      rw [hsplit, ih hrest, List.pairwise_cons (a := first)]
      refine and_congr_left fun hpairwise => ⟨fun hle => ?_, fun hall => ?_⟩
      · have hsecond := hrest second List.mem_cons_self
        refine List.forall_mem_cons.mpr ⟨⟨hfirst, hle, hsecond⟩, fun range hrange => ?_⟩
        obtain ⟨-, hnext, hlast⟩ := List.rel_of_pairwise_cons hpairwise hrange
        exact ⟨hfirst, by order, hlast⟩
      · exact (hall second List.mem_cons_self).2.1

theorem pairwise_before_iff (hranges : ∀ range ∈ ranges, range.1 < range.2)
    (hsorted : ranges.Pairwise fun a b => toLex a ≤ toLex b) :
    ranges.Pairwise Before ↔ ranges.Pairwise Apart := by
  constructor
  · refine List.Pairwise.imp fun ⟨ha, hle, hb⟩ => ?_
    exact (apart_iff ha hb).mpr fun hmeet => by order
  · intro hapart
    refine (hsorted.and hapart).imp_of_mem fun {a b} ha hb ⟨hle, hab⟩ => ?_
    have hstart : a.1 ≤ b.1 := Prod.Lex.monotone_fst _ _ hle
    have hmeet := (apart_iff (hranges a ha) (hranges b hb)).mp hab
    refine ⟨hranges a ha, not_lt.mp fun hlt => hmeet ⟨?_, hlt⟩, hranges b hb⟩
    exact hstart.trans_lt (hranges b hb)

theorem sorted_sortRanges (ranges : List (α × α)) :
    (sortRanges ranges).Pairwise fun a b => toLex a ≤ toLex b := by
  have hsorted := @List.pairwise_mergeSort _ (fun a b : α × α => decide (toLex a ≤ toLex b))
    (fun a b c hab hbc => by simpa using (of_decide_eq_true hab).trans (of_decide_eq_true hbc))
    (fun a b => by simpa using le_total (toLex a) (toLex b)) ranges
  simpa [sortRanges] using hsorted

@[simp]
theorem mem_sortRanges : a ∈ sortRanges ranges ↔ a ∈ ranges :=
  (List.mergeSort_perm ranges _).mem_iff

theorem pairwise_apart_iff (hranges : ∀ range ∈ ranges, range.1 < range.2) :
    ranges.Pairwise Apart ↔ neighboursOverlap (sortRanges ranges) = false := by
  have hsorted : ∀ range ∈ sortRanges ranges, range.1 < range.2 :=
    fun range hmem => hranges range (mem_sortRanges.mp hmem)
  rw [neighboursOverlap_eq_false hsorted, pairwise_before_iff hsorted (sorted_sortRanges ranges)]
  exact ((List.mergeSort_perm ranges _).pairwise_iff Apart.symm).symm

theorem exists_meets_iff (hbefore : ranges.Pairwise Before) (start stop : α) :
    (∃ range ∈ ranges, range.1 < stop ∧ start < range.2) ↔
      partitionPoint (fun range => range.1 < stop) ranges ≠ 0 ∧
        (ranges[partitionPoint (fun range => range.1 < stop) ranges - 1]?).any
          fun range => start < range.2 := by
  have hclosed : PrefixClosed (fun range => decide (range.1 < stop)) ranges :=
    hbefore.imp fun ⟨ha, hle, _⟩ => by simpa using fun hlt => ha.trans (hle.trans_lt hlt)
  have hpoint := hclosed.partitionPoint_le_length
  constructor
  · rintro ⟨range, hmem, hlt, hstart⟩
    obtain ⟨i, hi, rfl⟩ := List.getElem_of_mem hmem
    have hless := (hclosed.lt_partitionPoint_iff hi).mpr (by simpa using hlt)
    refine ⟨by omega, ?_⟩
    rw [List.getElem?_eq_getElem (by omega), Option.any_some, decide_eq_true_eq]
    -- the ends of the ranges grow as well
    rcases Nat.eq_or_lt_of_le (Nat.le_sub_one_of_lt hless) with heq | hless
    · simpa [← heq] using hstart
    · obtain ⟨-, hle, hpos⟩ := List.pairwise_iff_getElem.mp hbefore i _ hi (by omega) hless
      exact hstart.trans_le (hle.trans hpos.le)
  · rintro ⟨hpos, hany⟩
    have hi : partitionPoint (fun range => range.1 < stop) ranges - 1 < ranges.length := by omega
    rw [List.getElem?_eq_getElem hi, Option.any_some, decide_eq_true_eq] at hany
    have hlt := (hclosed.lt_partitionPoint_iff hi).mp (by omega)
    exact ⟨_, List.getElem_mem hi, by simpa using hlt, hany⟩

end OrbitKV
