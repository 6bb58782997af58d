import Mathlib.Tactic.Common

/-!
# How a fallible computation ends

A postcondition for a computation that may stop with one of some allowed errors.
-/

namespace OrbitKV

universe u

variable {ε : Type*} {α β : Type u} {allowed : ε → Prop} {post weaker : α → Prop}
  {result : Except ε α}

def Ends (allowed : ε → Prop) (post : α → Prop) : Except ε α → Prop
  | .ok a => post a
  | .error e => allowed e

theorem Ends.mono (hends : Ends allowed post result)
    (hweaker : ∀ a, post a → weaker a) : Ends allowed weaker result := by
  cases result with
  | ok a => exact hweaker a hends
  | error e => exact hends

theorem Ends.bind {next : α → Except ε β} {final : β → Prop}
    (hends : Ends allowed post result) (hnext : ∀ a, post a → Ends allowed final (next a)) :
    Ends allowed final (result >>= next) := by
  cases result with
  | ok a => exact hnext a hends
  | error e => exact hends

theorem Ends.map {f : α → β} {final : β → Prop}
    (hends : Ends allowed post result) (hf : ∀ a, post a → final (f a)) :
    Ends allowed final (f <$> result) := by
  cases result with
  | ok a => exact hf a hends
  | error e => exact hends

theorem Ends.of_ok {a : α} (hends : Ends allowed post result) (hok : result = .ok a) : post a := by
  rwa [hok] at hends

theorem Ends.of_error {e : ε} (hends : Ends allowed post result)
    (herror : result = .error e) : allowed e := by
  rwa [herror] at hends

end OrbitKV
