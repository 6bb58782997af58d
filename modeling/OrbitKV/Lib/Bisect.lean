import Mathlib.Data.List.TakeWhile

/-!
# Binary search on lists

Binary search of the standard library's slices, and `partitionPoint`, on sorted lists.
-/

namespace OrbitKV

variable {α : Type*}
  {f : α → Ordering} {xs : List α} {p : α → Bool}

def bisectLoop (f : α → Ordering) (xs : List α) : (fuel base size : Nat) → Nat
  | 0, base, _ => base
  | fuel + 1, base, size =>
    if 1 < size then
      let half := size / 2
      let mid := base + half
      let base := if (xs[mid]?.map f).getD .gt = .gt then base else mid
      bisectLoop f xs fuel base (size - half)
    else
      base

/-- `slice::binary_search_by`: the position of a match, or the position at which one would keep the
list sorted. -/
def binarySearchBy (f : α → Ordering) (xs : List α) : Except Nat Nat :=
  let base := bisectLoop f xs xs.length 0 xs.length
  match xs[base]?.map f with
  | none => .error 0
  | some .eq => .ok base
  | some .lt => .error (base + 1)
  | some .gt => .error base

def partitionPoint (p : α → Bool) (xs : List α) : Nat :=
  match binarySearchBy (fun x => if p x then .lt else .gt) xs with
  | .ok position => position
  | .error position => position

def Bisected (f : α → Ordering) (xs : List α) : Prop :=
  xs.Pairwise fun x y => f x = .gt → f y = .gt

theorem Bisected.getElem_gt (hxs : Bisected f xs)
    {i j : Nat} (hij : i ≤ j) (hj : j < xs.length) (hi : f (xs[i]) = .gt) : f xs[j] = .gt := by
  obtain rfl | hlt := Nat.eq_or_lt_of_le hij
  · exact hi
  · exact List.pairwise_iff_getElem.mp hxs i j (by omega) hj hlt hi

structure Window (f : α → Ordering) (xs : List α) (base size : Nat) : Prop where
  inside : base + size ≤ xs.length
  below : ∀ i, (hi : i < xs.length) → i < base ∨ i = base ∧ 0 < base → f xs[i] ≠ .gt
  above : ∀ i, (hi : i < xs.length) → base + size ≤ i → f xs[i] = .gt

theorem Window.halve (hxs : Bisected f xs) {base size : Nat}
    (hw : Window f xs base size) (hsize : 1 < size) :
    Window f xs
      (if (xs[base + size / 2]?.map f).getD .gt = .gt then base else base + size / 2)
      (size - size / 2) := by
  have hmid : base + size / 2 < xs.length := by have := hw.inside; omega
  rw [List.getElem?_eq_getElem hmid]
  simp only [Option.map_some, Option.getD_some]
  have hinside := hw.inside
  split
  case isTrue hgt =>
    refine ⟨by omega, hw.below, fun i hi hle => ?_⟩
    exact hxs.getElem_gt (i := base + size / 2) (by omega) hi hgt
  case isFalse hngt =>
    refine ⟨by omega, fun i hi hle => ?_, fun i hi hle => hw.above i hi (by omega)⟩
    intro hgt
    exact hngt (hxs.getElem_gt (by omega) hmid hgt)

theorem Window.loop (hxs : Bisected f xs) :
    ∀ {fuel base size : Nat}, size ≤ fuel → 0 < size → Window f xs base size →
      Window f xs (bisectLoop f xs fuel base size) 1 := by
  intro fuel
  induction fuel with
  | zero => intro base size hfuel hpos; omega
  | succ fuel ih =>
    intro base size hfuel hpos hw
    unfold bisectLoop
    split
    case isTrue hsize => exact ih (by omega) (by omega) (hw.halve hxs hsize)
    case isFalse hsize =>
      obtain rfl : size = 1 := by omega
      exact hw

theorem window_bisectLoop (hxs : Bisected f xs) (hne : xs ≠ []) :
    Window f xs (bisectLoop f xs xs.length 0 xs.length) 1 := by
  have hpos : 0 < xs.length := List.length_pos_iff.mpr hne
  exact Window.loop hxs le_rfl hpos ⟨by omega, by omega, by omega⟩

/-- A predicate that holds up to some position of the list and not after it. -/
def PrefixClosed (p : α → Bool) (xs : List α) : Prop :=
  xs.Pairwise fun x y => p y = true → p x = true

theorem PrefixClosed.bisected (hxs : PrefixClosed p xs) :
    Bisected (fun x => if p x then .lt else .gt) xs := by
  refine List.Pairwise.imp (fun {x y} hxy => ?_) hxs
  cases hx : p x <;> cases hy : p y <;> simp_all

theorem PrefixClosed.exists_base (hxs : PrefixClosed p xs) (hne : xs ≠ []) :
    ∃ base, ∃ hbase : base < xs.length,
      partitionPoint p xs = (if p xs[base] then base + 1 else base) ∧
      (∀ i, (hi : i < xs.length) → i < base → p xs[i] = true) ∧
      (∀ i, (hi : i < xs.length) → base < i → p xs[i] = false) := by
  have hw := window_bisectLoop hxs.bisected hne
  unfold partitionPoint binarySearchBy
  generalize bisectLoop _ xs xs.length 0 xs.length = base at hw
  have hbase : base < xs.length := by have := hw.inside; omega
  refine ⟨base, hbase, ?_, fun i hi hlt => ?_, fun i hi hlt => ?_⟩
  · cases hp : p xs[base] <;> simp [List.getElem?_eq_getElem hbase, hp]
  · simpa using hw.below i hi (.inl hlt)
  · simpa using hw.above i hi (by omega)

theorem PrefixClosed.lt_partitionPoint_iff (hxs : PrefixClosed p xs)
    {i : Nat} (hi : i < xs.length) : i < partitionPoint p xs ↔ p xs[i] = true := by
  obtain ⟨base, hbase, heq, hbelow, habove⟩ :=
    hxs.exists_base (List.ne_nil_of_length_pos (by omega))
  rcases Nat.lt_trichotomy i base with hlt | rfl | hgt
  · simp only [hbelow i hi hlt, iff_true, heq]
    split <;> omega
  · cases hp : p xs[i] <;> simp [heq, hp]
  · simp only [habove i hi hgt, Bool.false_eq_true, iff_false, heq]
    split <;> omega

theorem PrefixClosed.partitionPoint_le_length
    (hxs : PrefixClosed p xs) : partitionPoint p xs ≤ xs.length := by
  cases xs with
  | nil => simp [partitionPoint, binarySearchBy]
  | cons x rest =>
    obtain ⟨base, hbase, heq, -⟩ := hxs.exists_base (List.cons_ne_nil x rest)
    rw [heq]
    split <;> omega

end OrbitKV
