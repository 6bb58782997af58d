import Mathlib.Tactic

/-!
# Machine words that may overflow

Computations that end in a value, an error or a panic. An operator the program does not check is a
checked operation whose failure panics.
-/

namespace OrbitKV

variable {a b n : UInt64}

/-- How a computation fails: it reports an error, or an unchecked operator panics. -/
inductive Failure (ε : Type*) where
  | panic
  | error (e : ε)
  deriving DecidableEq, Repr

section Failure

variable {ε α β : Type}
  {xs : List α}

def orPanic : Option α → Except (Failure ε) α
  | none => .error .panic
  | some a => .ok a

def fail (e : ε) : Except (Failure ε) α :=
  .error (.error e)

def NoPanic (result : Except (Failure ε) α) : Prop :=
  result ≠ .error .panic

@[simp] theorem noPanic_ok (a : α) : NoPanic (.ok a : Except (Failure ε) α) := nofun

@[simp] theorem noPanic_fail (e : ε) : NoPanic (fail e : Except (Failure ε) α) := nofun

theorem NoPanic.bind {result : Except (Failure ε) α} {next : α → Except (Failure ε) β}
    (hresult : NoPanic result) (hnext : ∀ a, result = .ok a → NoPanic (next a)) :
    NoPanic (result >>= next) := by
  cases result with
  | ok a => exact hnext a rfl
  | error failure =>
    rintro ⟨⟩
    exact hresult rfl

theorem bind_eq_ok {result : Except ε α} {next : α → Except ε β} {b : β}
    (hok : result >>= next = .ok b) : ∃ a, result = .ok a ∧ next a = .ok b := by
  cases result with
  | ok a => exact ⟨a, rfl, hok⟩
  | error e => cases hok

theorem mem_of_mapM_eq_ok {f : α → Except ε β} {ys : List β}
    (hok : xs.mapM f = .ok ys) {y : β} (hy : y ∈ ys) : ∃ x ∈ xs, f x = .ok y := by
  induction xs generalizing ys with
  | nil =>
    obtain rfl : [] = ys := by simpa [pure, Except.pure] using hok
    cases hy
  | cons x xs ih =>
    rw [List.mapM_cons] at hok
    obtain ⟨first, hfirst, hok⟩ := bind_eq_ok hok
    obtain ⟨rest, hrest, hok⟩ := bind_eq_ok hok
    cases hok
    rcases List.mem_cons.mp hy with rfl | hy
    · exact ⟨x, List.mem_cons_self, hfirst⟩
    · obtain ⟨x', hx', heq⟩ := ih hrest hy
      exact ⟨x', List.mem_cons_of_mem x hx', heq⟩

theorem mapM_of_forall {f : α → Except ε β} {g : α → β}
    (hf : ∀ x ∈ xs, f x = .ok (g x)) : xs.mapM f = .ok (xs.map g) := by
  induction xs with
  | nil => rfl
  | cons x xs ih =>
    rw [List.mapM_cons, hf x List.mem_cons_self, ih fun y hy => hf y (List.mem_cons_of_mem x hy)]
    rfl

theorem noPanic_mapM {f : α → Except (Failure ε) β}
    (hf : ∀ x ∈ xs, NoPanic (f x)) : NoPanic (xs.mapM f) := by
  induction xs with
  | nil => exact noPanic_ok []
  | cons x xs ih =>
    rw [List.mapM_cons]
    refine (hf x List.mem_cons_self).bind fun y _ => ?_
    refine (ih fun z hz => hf z (List.mem_cons_of_mem x hz)).bind fun ys _ => ?_
    exact noPanic_ok _

theorem allM_of_forall {f : α → Except ε Bool} {p : α → Bool}
    (hf : ∀ x ∈ xs, f x = .ok (p x)) : xs.allM f = .ok (xs.all p) := by
  induction xs with
  | nil => rfl
  | cons x xs ih =>
    rw [List.allM, hf x List.mem_cons_self, List.all_cons]
    cases hp : p x with
    | false => simp [bind, Except.bind, pure, Except.pure]
    | true =>
      simpa [bind, Except.bind, hp] using ih fun y hy => hf y (List.mem_cons_of_mem x hy)

end Failure

/-! ### Checked operations -/

def maxWord : UInt64 := 0xffffffffffffffff

def checkedAdd (a b : UInt64) : Option UInt64 :=
  if a.toNat + b.toNat < 2 ^ 64 then some (a + b) else none

def checkedSub (a b : UInt64) : Option UInt64 :=
  if b ≤ a then some (a - b) else none

def checkedMul (a b : UInt64) : Option UInt64 :=
  if a.toNat * b.toNat < 2 ^ 64 then some (a * b) else none

def checkedDiv (a b : UInt64) : Option UInt64 :=
  if b = 0 then none else some (a / b)

theorem checkedAdd_of_lt (hlt : a.toNat + b.toNat < 2 ^ 64) :
    checkedAdd a b = some (a + b) ∧ (a + b).toNat = a.toNat + b.toNat :=
  ⟨if_pos hlt, by rw [UInt64.toNat_add, Nat.mod_eq_of_lt hlt]⟩

theorem checkedSub_of_le (hle : b ≤ a) :
    checkedSub a b = some (a - b) ∧ (a - b).toNat = a.toNat - b.toNat :=
  ⟨if_pos hle, UInt64.toNat_sub_of_le a b hle⟩

theorem checkedMul_of_lt (hlt : a.toNat * b.toNat < 2 ^ 64) :
    checkedMul a b = some (a * b) ∧ (a * b).toNat = a.toNat * b.toNat :=
  ⟨if_pos hlt, by rw [UInt64.toNat_mul, Nat.mod_eq_of_lt hlt]⟩

theorem checkedAdd_eq_some {c : UInt64} (hsome : checkedAdd a b = some c) :
    c.toNat = a.toNat + b.toNat := by
  unfold checkedAdd at hsome
  split at hsome
  case isTrue hlt =>
    cases hsome
    exact (checkedAdd_of_lt hlt).2
  case isFalse => cases hsome

theorem checkedMul_eq_some {c : UInt64} (hsome : checkedMul a b = some c) :
    c.toNat = a.toNat * b.toNat := by
  unfold checkedMul at hsome
  split at hsome
  case isTrue hlt =>
    cases hsome
    exact (checkedMul_of_lt hlt).2
  case isFalse => cases hsome

theorem toNat_min (a b : UInt64) : (min a b).toNat = min a.toNat b.toNat := by
  change (if a ≤ b then a else b).toNat = _
  rw [Nat.min_def]
  split
  case isTrue hle => rw [if_pos (UInt64.le_iff_toNat_le.mp hle)]
  case isFalse hlt => rw [if_neg fun hle => hlt (UInt64.le_iff_toNat_le.mpr hle)]

def isMultipleOf (n m : UInt64) : Bool :=
  if m = 0 then n = 0 else n % m = 0

theorem isMultipleOf_iff {m : UInt64} : isMultipleOf n m = true ↔ m.toNat ∣ n.toNat := by
  unfold isMultipleOf
  rw [Nat.dvd_iff_mod_eq_zero, ← UInt64.toNat_mod]
  split
  case isTrue hzero => simp [hzero, ← UInt64.toNat_inj]
  case isFalse => simp [← UInt64.toNat_inj]

def divCeil (n m : UInt64) : UInt64 :=
  if n % m = 0 then n / m else n / m + 1

theorem toNat_pos_iff : 0 < n.toNat ↔ n ≠ 0 := by
  rw [Nat.pos_iff_ne_zero, ne_eq, ne_eq, ← UInt64.toNat_inj, UInt64.toNat_zero]

theorem divCeil_pos {m : UInt64} (hn : 0 < n.toNat) (hm : 0 < m.toNat) :
    0 < (divCeil n m).toNat := by
  unfold divCeil
  split
  case isTrue hdvd =>
    rw [← UInt64.toNat_inj, UInt64.toNat_mod, UInt64.toNat_zero, ← Nat.dvd_iff_mod_eq_zero] at hdvd
    rw [UInt64.toNat_div]
    exact Nat.div_pos (Nat.le_of_dvd hn hdvd) hm
  case isFalse hrem =>
    rw [← UInt64.toNat_inj, UInt64.toNat_mod, UInt64.toNat_zero] at hrem
    -- a divisor that leaves a remainder is at least two, so the quotient is far from the bound
    have htwo : 2 ≤ m.toNat := by
      by_contra hlt
      exact hrem (by rw [show m.toNat = 1 by omega, Nat.mod_one])
    have hhalf : n.toNat / m.toNat ≤ n.toNat / 2 := Nat.div_le_div_left htwo (by omega)
    have hbound := n.toNat_lt
    rw [UInt64.toNat_add, UInt64.toNat_div, UInt64.toNat_one]
    generalize n.toNat / m.toNat = quotient at hhalf
    omega

/-! ### Words as natural numbers -/

section Naturals

variable {ε : Type}

def u64Bound : Nat := 2 ^ 64

def saturatingAdd (a b : Nat) : Nat :=
  min (a + b) (u64Bound - 1)

def boundedAdd (a b : Nat) : Option Nat :=
  if a + b < u64Bound then some (a + b) else none

theorem boundedAdd_eq_some {a b c : Nat} (hsome : boundedAdd a b = some c) : c = a + b := by
  unfold boundedAdd at hsome
  split at hsome
  · exact (Option.some.inj hsome).symm
  · cases hsome

def addOrPanic (a b : Nat) : Except (Failure ε) Nat :=
  if a + b < 2 ^ 64 then .ok (a + b) else .error .panic

def subOrPanic (a b : Nat) : Except (Failure ε) Nat :=
  if b ≤ a then .ok (a - b) else .error .panic

theorem addOrPanic_of_lt {a b : Nat} (hlt : a + b < 2 ^ 64) :
    addOrPanic a b = (.ok (a + b) : Except (Failure ε) Nat) :=
  if_pos hlt

theorem subOrPanic_of_le {a b : Nat} (hle : b ≤ a) :
    subOrPanic a b = (.ok (a - b) : Except (Failure ε) Nat) :=
  if_pos hle

end Naturals

end OrbitKV
