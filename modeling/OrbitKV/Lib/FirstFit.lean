import Mathlib.Tactic

/-!
# First fit

A range is placed into the first long enough gap of sorted spans, or behind the last.
-/

namespace OrbitKV

structure Span where
  start : Nat
  stop : Nat
  deriving DecidableEq, Repr

namespace Span

def Apart (span other : Span) : Prop :=
  span.stop ≤ other.start ∨ other.stop ≤ span.start

theorem Apart.symm {span other : Span} (hapart : span.Apart other) : other.Apart span :=
  hapart.elim .inr .inl

end Span

def firstFit (size : Nat) : List Span → Nat → Nat
  | [], position => position
  | span :: spans, position =>
    if size ≤ span.start - position then position else firstFit size spans span.stop

def Ascending : Nat → List Span → Prop
  | _, [] => True
  | position, span :: spans =>
    position ≤ span.start ∧ span.start ≤ span.stop ∧ Ascending span.stop spans

variable {size position : Nat} {spans : List Span}

theorem Ascending.le_start (hascending : Ascending position spans) :
    ∀ span ∈ spans, position ≤ span.start := by
  induction spans generalizing position with
  | nil => exact fun _ h => absurd h List.not_mem_nil
  | cons head spans ih =>
    obtain ⟨hfirst, hhead, hrest⟩ := hascending
    intro span hspan
    rcases List.mem_cons.mp hspan with rfl | hspan
    · exact hfirst
    · exact le_trans hfirst (le_trans hhead (ih hrest span hspan))

theorem ascending_of_sorted (hsorted : spans.Pairwise fun a b => a.start ≤ b.start)
    (hapart : spans.Pairwise Span.Apart) (hpos : ∀ span ∈ spans, span.start < span.stop)
    (hposition : ∀ span ∈ spans, position ≤ span.start) : Ascending position spans := by
  induction spans generalizing position with
  | nil => trivial
  | cons head spans ih =>
    have hhead := hpos head List.mem_cons_self
    refine ⟨hposition head List.mem_cons_self, hhead.le, ?_⟩
    apply ih hsorted.of_cons hapart.of_cons
    · exact fun span hspan => hpos span (List.mem_cons_of_mem _ hspan)
    · intro span hspan
      have hle := List.rel_of_pairwise_cons hsorted hspan
      have hnot := List.rel_of_pairwise_cons hapart hspan
      have hspan' := hpos span (List.mem_cons_of_mem _ hspan)
      unfold Span.Apart at hnot
      omega

theorem firstFit_cases (size : Nat) (spans : List Span) (position : Nat) :
    firstFit size spans position = position ∨
      ∃ span ∈ spans, firstFit size spans position = span.stop := by
  induction spans generalizing position with
  | nil => exact .inl rfl
  | cons head spans ih =>
    unfold firstFit
    split
    case isTrue => exact .inl rfl
    case isFalse =>
      rcases ih head.stop with heq | ⟨span, hspan, heq⟩
      · exact .inr ⟨head, List.mem_cons_self, heq⟩
      · exact .inr ⟨span, List.mem_cons_of_mem _ hspan, heq⟩

theorem firstFit_apart (hascending : Ascending position spans) :
    position ≤ firstFit size spans position ∧
      ∀ span ∈ spans, Span.Apart ⟨firstFit size spans position, firstFit size spans position + size⟩
        span := by
  induction spans generalizing position with
  | nil => exact ⟨le_rfl, fun _ h => absurd h List.not_mem_nil⟩
  | cons head spans ih =>
    obtain ⟨hfirst, hhead, hrest⟩ := hascending
    unfold firstFit
    split
    case isTrue hfits =>
      refine ⟨le_rfl, fun span hspan => .inl ?_⟩
      have hstart : head.start ≤ span.start := by
        rcases List.mem_cons.mp hspan with rfl | hspan
        · exact le_rfl
        · exact le_trans hhead (hrest.le_start span hspan)
      dsimp only
      omega
    case isFalse =>
      obtain ⟨hle, hapart⟩ := ih hrest
      refine ⟨by omega, fun span hspan => ?_⟩
      rcases List.mem_cons.mp hspan with rfl | hspan
      · exact .inr hle
      · exact hapart span hspan

end OrbitKV
