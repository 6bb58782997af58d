import Mathlib.Tactic

/-!
# Extents of a ring

Logical offsets only grow; the physical offset is the remainder by the capacity.
-/

namespace OrbitKV.Ring

def Apart (a l b m : Nat) : Prop :=
  a + l ≤ b ∨ b + m ≤ a

theorem Apart.symm {a l b m : Nat} (hapart : Apart a l b m) : Apart b m a l := Or.symm hapart

variable {capacity : Nat}

def Fits (capacity offset size : Nat) : Prop :=
  offset % capacity + size ≤ capacity

theorem apart_of_ordered {a l b m : Nat} (ha : Fits capacity a l) (hb : Fits capacity b m)
    (hordered : a + l ≤ b) (hwindow : b + m ≤ a + capacity) :
    Apart (a % capacity) l (b % capacity) m := by
  unfold Fits at ha hb
  rcases Nat.eq_zero_or_pos capacity with rfl | hpos
  · left
    rw [Nat.mod_zero, Nat.mod_zero]
    exact hordered
  have hfirst := Nat.div_add_mod a capacity
  have hsecond := Nat.div_add_mod b capacity
  have hlower : a / capacity ≤ b / capacity := Nat.div_le_div_right (by omega)
  have hupper : b / capacity ≤ a / capacity + 1 := by
    rw [← Nat.add_div_right a hpos]
    exact Nat.div_le_div_right (by omega)
  -- the later range starts in the same round of the ring or in the next one
  by_cases hround : b / capacity = a / capacity
  · left
    rw [hround] at hsecond
    omega
  · right
    have hnext : b / capacity = a / capacity + 1 := by omega
    rw [hnext, Nat.mul_succ] at hsecond
    omega

theorem apart_mod {tail head a l b m : Nat} (hwindow : head ≤ tail + capacity)
    (ha : tail ≤ a) (hal : a + l ≤ head) (hfits : Fits capacity a l)
    (hb : tail ≤ b) (hbm : b + m ≤ head) (hfits' : Fits capacity b m)
    (hapart : Apart a l b m) : Apart (a % capacity) l (b % capacity) m := by
  rcases hapart with hordered | hordered
  · exact apart_of_ordered hfits hfits' hordered (by omega)
  · exact (apart_of_ordered hfits' hfits hordered (by omega)).symm

/-- Where a range of `size` bytes begins at or after `head`: the rest of the round is skipped if the
range does not fit into it. -/
def place (capacity head size : Nat) : Nat :=
  if capacity - head % capacity < size then head + (capacity - head % capacity) else head

theorem le_place (capacity head size : Nat) : head ≤ place capacity head size := by
  unfold place
  split <;> omega

theorem fits_place {head size : Nat} (hsize : 0 < size) (hle : size ≤ capacity) :
    Fits capacity (place capacity head size) size := by
  have hlt : head % capacity < capacity := Nat.mod_lt _ (by omega)
  unfold Fits place
  split
  case isTrue =>
    have hround : head + (capacity - head % capacity) = capacity * (head / capacity + 1) := by
      have hdiv := Nat.div_add_mod head capacity
      rw [Nat.mul_succ]
      omega
    rw [hround, Nat.mul_mod_right]
    omega
  case isFalse => omega

end OrbitKV.Ring
