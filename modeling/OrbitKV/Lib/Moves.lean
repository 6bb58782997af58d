import Mathlib.Tactic

/-!
# Moves of bytes between memories

What a list of copies between memories leaves at an address. When all that cover it bring the same
contents, the order does not matter.
-/

namespace OrbitKV

theorem foldl_covered {σ ι β : Type*} {f : σ → ι → σ} (observe : σ → β) (covers : ι → Prop)
    (value : β) {items : List ι} (hset : ∀ i ∈ items, covers i → ∀ s, observe (f s i) = value)
    (hframe : ∀ i ∈ items, ¬covers i → ∀ s, observe (f s i) = observe s) (s : σ) :
    ((∃ i ∈ items, covers i) → observe (items.foldl f s) = value) ∧
      ((∀ i ∈ items, ¬covers i) → observe (items.foldl f s) = observe s) := by
  induction items using List.reverseRecOn with
  | nil => exact ⟨fun ⟨_, hi, _⟩ => absurd hi List.not_mem_nil, fun _ => rfl⟩
  | append_singleton items last ih =>
    have hlast : last ∈ items ++ [last] := by simp
    have ih := ih (fun i hi => hset i (List.mem_append_left _ hi))
      (fun i hi => hframe i (List.mem_append_left _ hi))
    rw [List.foldl_append, List.foldl_cons, List.foldl_nil]
    constructor
    · rintro ⟨i, hi, hcovers⟩
      by_cases hcase : covers last
      · exact hset last hlast hcase _
      · rw [hframe last hlast hcase]
        apply ih.1
        rcases List.mem_append.mp hi with hi | hi
        · exact ⟨i, hi, hcovers⟩
        · rw [List.mem_singleton.mp hi] at hcovers
          exact absurd hcovers hcase
    · intro hnone
      rw [hframe last hlast (hnone last hlast)]
      exact ih.2 fun i hi => hnone i (List.mem_append_left _ hi)

theorem foldlM_eq_foldl {ε σ ι : Type} {g : σ → ι → Except ε σ} {f : σ → ι → σ} {items : List ι}
    (hg : ∀ i ∈ items, ∀ s, g s i = .ok (f s i)) (s : σ) :
    items.foldlM g s = .ok (items.foldl f s) := by
  induction items generalizing s with
  | nil => rfl
  | cons i items ih =>
    rw [List.foldlM_cons, hg i List.mem_cons_self]
    exact ih (fun j hj => hg j (List.mem_cons_of_mem i hj)) (f s i)

/-! ### Moves -/

section Moves

variable {β : Type}

structure Move where
  source : Nat
  target : Nat
  bytes : Nat

def Move.Covers (move : Move) (address : Nat) : Prop :=
  move.target ≤ address ∧ address < move.target + move.bytes

instance (move : Move) (address : Nat) : Decidable (move.Covers address) :=
  inferInstanceAs (Decidable (_ ∧ _))

def Move.apply (memory : Nat → β) (into : Nat → β) (move : Move) : Nat → β :=
  fun address =>
    if move.Covers address then memory (move.source + (address - move.target)) else into address

def moveAll (memory : Nat → β) (moves : List Move) (into : Nat → β) : Nat → β :=
  moves.foldl (Move.apply memory) into

variable {memory into : Nat → β} {moves : List Move} {move : Move} {address : Nat} {value : β}

theorem Move.apply_of_covers (hcovers : move.Covers address) :
    Move.apply memory into move address = memory (move.source + (address - move.target)) :=
  if_pos hcovers

theorem Move.apply_of_not_covers (hcovers : ¬move.Covers address) :
    Move.apply memory into move address = into address :=
  if_neg hcovers

theorem moveAll_of_agree
    (hagree : ∀ move ∈ moves, move.Covers address →
      memory (move.source + (address - move.target)) = value)
    (hsome : ∃ move ∈ moves, move.Covers address) : moveAll memory moves into address = value := by
  apply (foldl_covered (· address) (·.Covers address) value _ _ into).1 hsome
  · intro move hmove hcovers into
    exact (Move.apply_of_covers hcovers).trans (hagree move hmove hcovers)
  · intro move _ hcovers into
    exact Move.apply_of_not_covers hcovers

theorem moveAll_of_outside (hnone : ∀ move ∈ moves, ¬move.Covers address) :
    moveAll memory moves into address = into address := by
  apply (foldl_covered (· address) (·.Covers address) (into address) _ _ into).2 hnone
  · intro move hmove hcovers
    exact absurd hcovers (hnone move hmove)
  · intro move _ hcovers into
    exact Move.apply_of_not_covers hcovers

end Moves

end OrbitKV
