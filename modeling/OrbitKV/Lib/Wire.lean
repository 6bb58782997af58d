import OrbitKV.Lib.Word

/-!
# Reading and writing bytes

Little-endian words, and scans of a slice. A scan is described by one equivalence: it ends with a
value exactly when the bytes before its cursor are the image of the value.
-/

namespace OrbitKV

open List

abbrev Bytes : Type := List UInt8

/-! ### Little-endian words -/

def leBytes : (width n : Nat) → Bytes
  | 0, _ => []
  | width + 1, n => UInt8.ofNat n :: leBytes width (n / 256)

def ofLe : Bytes → Nat
  | [] => 0
  | byte :: rest => byte.toNat + 256 * ofLe rest

@[simp]
theorem length_leBytes (width n : Nat) : (leBytes width n).length = width := by
  induction width generalizing n with
  | zero => rfl
  | succ width ih => rw [leBytes, length_cons, ih]

theorem ofLe_lt (bytes : Bytes) : ofLe bytes < 256 ^ bytes.length := by
  induction bytes with
  | nil => exact Nat.one_pos
  | cons byte rest ih =>
    have hbyte : byte.toNat < 256 := byte.toNat_lt
    rw [ofLe, length_cons, Nat.pow_succ]
    omega

theorem ofLe_leBytes {width n : Nat} (hn : n < 256 ^ width) : ofLe (leBytes width n) = n := by
  induction width generalizing n with
  | zero =>
    obtain rfl : n = 0 := by simpa using hn
    rfl
  | succ width ih =>
    have hdigit : (UInt8.ofNat n).toNat = n % 256 := UInt8.toNat_ofNat'
    rw [Nat.pow_succ] at hn
    rw [leBytes, ofLe, ih (Nat.div_lt_of_lt_mul (by omega)), hdigit]
    exact Nat.mod_add_div n 256

theorem leBytes_ofLe (bytes : Bytes) : leBytes bytes.length (ofLe bytes) = bytes := by
  induction bytes with
  | nil => rfl
  | cons byte rest ih =>
    have hbyte : byte.toNat < 256 := byte.toNat_lt
    have hhead : UInt8.ofNat (byte.toNat + 256 * ofLe rest) = byte := by
      apply UInt8.toNat_inj.mp
      rw [UInt8.toNat_ofNat']
      omega
    have htail : (byte.toNat + 256 * ofLe rest) / 256 = ofLe rest := by omega
    rw [ofLe, length_cons, leBytes, hhead, htail, ih]

/-! ### Cursors -/

def isizeMax : Nat := 2 ^ 63 - 1

structure Slice where
  bytes : Bytes
  fits : bytes.length ≤ isizeMax

structure Cursor where
  slice : Slice
  offset : Nat
  offset_le : offset ≤ slice.bytes.length

namespace Cursor

variable {c c' c'' : Cursor} {taken first second : Bytes}

def new (slice : Slice) : Cursor :=
  ⟨slice, 0, Nat.zero_le _⟩

def rest (c : Cursor) : Bytes :=
  c.slice.bytes.drop c.offset

def remaining (c : Cursor) : Nat :=
  c.slice.bytes.length - c.offset

@[simp]
theorem length_rest (c : Cursor) : c.rest.length = c.remaining := length_drop

@[ext]
theorem ext (hslice : c.slice = c'.slice) (hoffset : c.offset = c'.offset) : c = c' := by
  cases c
  cases c'
  cases hslice
  cases hoffset
  rfl

structure Takes (c : Cursor) (taken : Bytes) (c' : Cursor) : Prop where
  slice_eq : c'.slice = c.slice
  rest_eq : c.rest = taken ++ c'.rest

theorem Takes.remaining_eq (htakes : c.Takes taken c') :
    c.remaining = taken.length + c'.remaining := by
  rw [← length_rest, htakes.rest_eq, length_append, length_rest]

theorem Takes.offset_eq (htakes : c.Takes taken c') : c'.offset = c.offset + taken.length := by
  have hremaining := htakes.remaining_eq
  have hle := c.offset_le
  have hle' := c'.offset_le
  rw [htakes.slice_eq] at hle'
  rw [remaining, remaining, htakes.slice_eq] at hremaining
  omega

@[simp]
theorem takes_nil : c.Takes [] c' ↔ c' = c := by
  constructor
  · intro htakes
    exact Cursor.ext htakes.slice_eq htakes.offset_eq
  · rintro rfl
    exact ⟨rfl, rfl⟩

@[simp]
theorem takes_append :
    c.Takes (first ++ second) c'' ↔ ∃ c', c.Takes first c' ∧ c'.Takes second c'' := by
  constructor
  · intro htakes
    have hremaining := htakes.remaining_eq
    have hle := c.offset_le
    rw [length_append, remaining] at hremaining
    have hdrop : c.slice.bytes.drop (c.offset + first.length) = second ++ c''.rest := by
      rw [← drop_drop, ← rest, htakes.rest_eq, append_assoc, drop_left]
    refine ⟨⟨c.slice, c.offset + first.length, by omega⟩, ⟨rfl, ?_⟩, ⟨htakes.slice_eq, hdrop⟩⟩
    calc c.rest
        = first ++ (second ++ c''.rest) := by rw [htakes.rest_eq, append_assoc]
      _ = first ++ c.slice.bytes.drop (c.offset + first.length) := by rw [hdrop]
  · rintro ⟨middle, hfirst, hsecond⟩
    refine ⟨hsecond.slice_eq.trans hfirst.slice_eq, ?_⟩
    rw [hfirst.rest_eq, hsecond.rest_eq, append_assoc]

@[simp]
theorem exists_takes_and {p : Prop} {q : Cursor → Prop} :
    (∃ c', c.Takes taken c' ∧ p ∧ q c') ↔ p ∧ ∃ c', c.Takes taken c' ∧ q c' := by
  simp only [and_left_comm, exists_and_left]

@[simp]
theorem takes_end_and {p : Prop} :
    (c.Takes taken c' ∧ c'.rest = [] ∧ p) ↔ p ∧ c.Takes taken c' ∧ c'.rest = [] := by
  rw [← and_assoc, and_comm]

theorem takes_all (slice : Slice) :
    (∃ c', (new slice).Takes taken c' ∧ c'.rest = []) ↔ taken = slice.bytes := by
  constructor
  · rintro ⟨c', htakes, hend⟩
    have hrest := htakes.rest_eq
    rw [hend, append_nil] at hrest
    exact hrest.symm
  · rintro rfl
    refine ⟨⟨slice, slice.bytes.length, Nat.le_refl _⟩, ⟨rfl, ?_⟩, drop_length⟩
    simp [rest, new]

end Cursor

/-! ### Checks -/

section Checks

variable {ε : Type}

/-- `if bad { return Err(error) }`. -/
def failIf (bad : Prop) [Decidable bad] (error : ε) : Except (Failure ε) Unit :=
  if bad then fail error else .ok ()

@[simp]
theorem failIf_eq_ok {bad : Prop} [Decidable bad] {error : ε} {u : Unit} :
    failIf bad error = .ok u ↔ ¬ bad := by
  unfold failIf fail
  split_ifs with h <;> simp [h]

theorem noPanic_failIf (bad : Prop) [Decidable bad] (error : ε) : NoPanic (failIf bad error) := by
  unfold failIf
  split_ifs
  · exact noPanic_fail _
  · exact noPanic_ok _

/-- `Vec::with_capacity`, which panics above `isize::MAX` bytes. -/
def withCapacity (elementSize count : Nat) : Except (Failure ε) Unit :=
  if elementSize * count ≤ isizeMax then .ok () else .error .panic

@[simp]
theorem withCapacity_eq_ok {elementSize count : Nat} {u : Unit} :
    (withCapacity elementSize count : Except (Failure ε) Unit) = .ok u ↔
      elementSize * count ≤ isizeMax := by
  unfold withCapacity
  split_ifs with h <;> simp [h]

theorem noPanic_withCapacity {elementSize count : Nat} (hfits : elementSize * count ≤ isizeMax) :
    NoPanic (withCapacity elementSize count : Except (Failure ε) Unit) := by
  rw [withCapacity, if_pos hfits]
  exact noPanic_ok _

end Checks

/-! ### Scans -/

abbrev Scan (ε α : Type) : Type := StateT Cursor (Except (Failure ε)) α

namespace Scan

variable {ε α β : Type} {c c' : Cursor}
  {p : Scan ε α} {a : α}

@[simp]
theorem run_bind_eq_ok {f : α → Scan ε β} {result : β × Cursor} :
    (p >>= f).run c = .ok result ↔ ∃ a c', p.run c = .ok (a, c') ∧ (f a).run c' = .ok result := by
  rw [StateT.run_bind]
  constructor
  · intro hok
    obtain ⟨⟨a, c'⟩, hfirst, hrest⟩ := bind_eq_ok hok
    exact ⟨a, c', hfirst, hrest⟩
  · rintro ⟨a, c', hfirst, hrest⟩
    rw [hfirst]
    exact hrest

@[simp]
theorem run_pure_eq_ok {b : α} : (pure a : Scan ε α).run c = .ok (b, c') ↔ b = a ∧ c' = c := by
  rw [StateT.run_pure]
  simp [pure, Except.pure, eq_comm]

theorem run_map_eq_ok {f : α → β} {b : β} :
    (f <$> p).run c = .ok (b, c') ↔ ∃ a, p.run c = .ok (a, c') ∧ b = f a := by
  rw [map_eq_pure_bind, run_bind_eq_ok]
  constructor
  · rintro ⟨a, _, hrun, hpure⟩
    obtain ⟨rfl, rfl⟩ := run_pure_eq_ok.mp hpure
    exact ⟨a, hrun, rfl⟩
  · rintro ⟨a, hrun, rfl⟩
    exact ⟨a, c', hrun, run_pure_eq_ok.mpr ⟨rfl, rfl⟩⟩

def lift (result : Except (Failure ε) α) : Scan ε α :=
  StateT.lift result

@[simp]
theorem run_lift_eq_ok {result : Except (Failure ε) α} :
    (lift result).run c = .ok (a, c') ↔ result = .ok a ∧ c' = c := by
  rw [lift, StateT.run_lift]
  cases result with
  | ok b => simp [bind, Except.bind, pure, Except.pure, eq_comm]
  | error failure => simp [bind, Except.bind]

def rejectIf (bad : Prop) [Decidable bad] (error : ε) : Scan ε Unit :=
  lift (failIf bad error)

@[simp]
theorem run_rejectIf_eq_ok {bad : Prop} [Decidable bad] {error : ε} {u : Unit} :
    (rejectIf bad error).run c = .ok (u, c') ↔ ¬ bad ∧ c' = c := by
  rw [rejectIf, run_lift_eq_ok, failIf_eq_ok]

def take (short : ε) (len : Nat) : Scan ε Bytes := fun c =>
  if c.offset + len < 2 ^ 64 then
    if hend : c.offset + len ≤ c.slice.bytes.length then
      .ok (c.rest.take len, ⟨c.slice, c.offset + len, hend⟩)
    else fail short
  else fail short

theorem run_take_eq_ok {short : ε} {len : Nat} {taken : Bytes} :
    (take short len).run c = .ok (taken, c') ↔ taken.length = len ∧ c.Takes taken c' := by
  change take short len c = _ ↔ _
  unfold take
  constructor
  · intro hok
    split_ifs at hok with hword hend
    · obtain ⟨rfl, rfl⟩ := Prod.mk.inj (Except.ok.inj hok)
      refine ⟨?_, rfl, ?_⟩
      · rw [length_take, Cursor.length_rest, Cursor.remaining]
        omega
      · rw [Cursor.rest, Cursor.rest, ← drop_drop, take_append_drop]
    · cases hok
    · cases hok
  · rintro ⟨rfl, htakes⟩
    have hoffset := htakes.offset_eq
    have hle := c'.offset_le
    have hfits := c.slice.fits
    rw [htakes.slice_eq, hoffset] at hle
    rw [if_pos (by unfold isizeMax at hfits; omega), dif_pos hle, htakes.rest_eq, take_left]
    congr 2
    exact Cursor.ext htakes.slice_eq.symm hoffset.symm

def remaining : Scan ε Nat := fun c => .ok (c.remaining, c)

@[simp]
theorem run_remaining_eq_ok {n : Nat} :
    (remaining : Scan ε Nat).run c = .ok (n, c') ↔ n = c.remaining ∧ c' = c := by
  change Except.ok (c.remaining, c) = _ ↔ _
  simp [eq_comm]

def times (p : Scan ε α) : Nat → Scan ε (List α)
  | 0 => pure []
  | count + 1 => do
      let first ← p
      let others ← times p count
      return first :: others

/-- A scan that ends with a value exactly when it has read the image of that value. -/
def Reads (p : Scan ε α) (valid : α → Prop) (image : α → Bytes) : Prop :=
  ∀ c a c', p.run c = .ok (a, c') ↔ valid a ∧ c.Takes (image a) c'

theorem Reads.times {valid : α → Prop} {image : α → Bytes}
    (hp : Reads p valid image) (count : Nat) :
    Reads (times p count) (fun xs => xs.length = count ∧ ∀ x ∈ xs, valid x)
      (fun xs => xs.flatMap image) := by
  induction count with
  | zero =>
    intro c xs c'
    rw [Scan.times, run_pure_eq_ok]
    constructor
    · rintro ⟨rfl, rfl⟩
      simp
    · rintro ⟨⟨hlength, -⟩, htakes⟩
      obtain rfl := List.length_eq_zero_iff.mp hlength
      exact ⟨rfl, Cursor.takes_nil.mp htakes⟩
  | succ count ih =>
    intro c xs c'
    simp only [Scan.times, run_bind_eq_ok, run_pure_eq_ok, hp _ _ _, ih _ _ _]
    constructor
    · rintro ⟨first, c₁, ⟨hfirst, htakes⟩, others, c₂, ⟨⟨rfl, hothers⟩, hrest⟩, rfl, rfl⟩
      refine ⟨⟨rfl, List.forall_mem_cons.mpr ⟨hfirst, hothers⟩⟩, ?_⟩
      rw [flatMap_cons, Cursor.takes_append]
      exact ⟨c₁, htakes, hrest⟩
    · rintro ⟨⟨hlength, hvalid⟩, htakes⟩
      cases xs with
      | nil => cases hlength
      | cons first others =>
        rw [flatMap_cons, Cursor.takes_append] at htakes
        obtain ⟨c₁, hfirst, hrest⟩ := htakes
        obtain ⟨hone, hothers⟩ := List.forall_mem_cons.mp hvalid
        exact ⟨first, c₁, ⟨hone, hfirst⟩, others, c', ⟨⟨Nat.succ.inj hlength, hothers⟩, hrest⟩,
          rfl, rfl⟩

theorem Reads.optional {valid : α → Prop} {image : α → Bytes}
    (hp : Reads p valid image) (present : Prop) [Decidable present] :
    Reads (if present then some <$> p else pure none)
      (fun o => (o.isSome ↔ present) ∧ ∀ a ∈ o, valid a) (fun o => o.elim [] image) := by
  intro c o c'
  split_ifs with hpresent
  · rw [run_map_eq_ok]
    constructor
    · rintro ⟨a, hrun, rfl⟩
      obtain ⟨hvalid, htakes⟩ := (hp _ _ _).mp hrun
      exact ⟨⟨by simp [hpresent], by simpa using hvalid⟩, htakes⟩
    · rintro ⟨⟨hsome, hvalid⟩, htakes⟩
      obtain ⟨a, rfl⟩ := Option.isSome_iff_exists.mp (hsome.mpr hpresent)
      exact ⟨a, (hp _ _ _).mpr ⟨hvalid a rfl, htakes⟩, rfl⟩
  · rw [run_pure_eq_ok]
    constructor
    · rintro ⟨rfl, rfl⟩
      simp [hpresent]
    · rintro ⟨⟨hsome, -⟩, htakes⟩
      cases o with
      | none => exact ⟨rfl, Cursor.takes_nil.mp htakes⟩
      | some a => exact absurd (hsome.mp rfl) hpresent

/-! ### Scans that do not panic -/

class Calm (p : Scan ε α) : Prop where
  noPanic : ∀ c, NoPanic (p.run c)

theorem Calm.bind {f : α → Scan ε β} (hp : Calm p) (hf : ∀ a, Calm (f a)) : Calm (p >>= f) where
  noPanic c := by
    rw [StateT.run_bind]
    exact (hp.noPanic c).bind fun r _ => (hf r.1).noPanic r.2

instance {p : Scan ε α} {f : α → Scan ε β} [hp : Calm p] [hf : ∀ a, Calm (f a)] : Calm (p >>= f) :=
  hp.bind hf

instance {a : α} : Calm (pure a : Scan ε α) where
  noPanic _ := noPanic_ok _

instance {p : Scan ε α} {f : α → β} [hp : Calm p] : Calm (f <$> p) := by
  rw [map_eq_pure_bind]
  infer_instance

instance {condition : Prop} [Decidable condition] {p q : Scan ε α} [hp : Calm p] [hq : Calm q] :
    Calm (if condition then p else q) where
  noPanic c := by
    split
    · exact hp.noPanic c
    · exact hq.noPanic c

instance {short : ε} {len : Nat} : Calm (take short len) where
  noPanic c := by
    change NoPanic (take short len c)
    unfold take
    split_ifs
    · exact noPanic_ok _
    · exact noPanic_fail _
    · exact noPanic_fail _

instance : Calm (remaining : Scan ε Nat) where
  noPanic _ := noPanic_ok _

theorem calm_lift {result : Except (Failure ε) α} (hresult : NoPanic result) :
    Calm (lift result) where
  noPanic c := by
    rw [lift, StateT.run_lift]
    exact hresult.bind fun a _ => noPanic_ok _

instance {bad : Prop} [Decidable bad] {error : ε} : Calm (rejectIf bad error) :=
  calm_lift (noPanic_failIf bad error)

instance {p : Scan ε α} [hp : Calm p] (count : Nat) : Calm (times p count) := by
  induction count with
  | zero =>
    rw [times]
    infer_instance
  | succ count ih =>
    rw [times]
    infer_instance

/-! ### Whole slices -/

/-- A scan of a message: it ends with a value exactly when it has read the wire image of the value and
nothing is left. -/
def ReadsAll (p : Scan ε α) (valid : α → Prop) (wire : α → Bytes) : Prop :=
  ∀ c a c', p.run c = .ok (a, c') ↔ valid a ∧ c.Takes (wire a) c' ∧ c'.rest = []

theorem run'_eq_ok : p.run' c = .ok a ↔ ∃ c', p.run c = .ok (a, c') := by
  change (fun r : α × Cursor => r.1) <$> p.run c = _ ↔ _
  cases hrun : p.run c with
  | ok result =>
    simp only [Functor.map, Except.map, Except.ok.injEq]
    constructor
    · rintro rfl
      exact ⟨result.2, rfl⟩
    · rintro ⟨_, rfl⟩
      rfl
  | error failure => simp [Functor.map, Except.map]

theorem Calm.run' (hp : Calm p) (c : Cursor) : NoPanic (p.run' c) := by
  intro hpanic
  apply hp.noPanic c
  change (fun r : α × Cursor => r.1) <$> p.run c = _ at hpanic
  cases hrun : p.run c with
  | ok result =>
    rw [hrun] at hpanic
    cases hpanic
  | error failure =>
    rw [hrun] at hpanic
    obtain rfl : failure = .panic := by simpa [Functor.map, Except.map] using hpanic
    rfl

end Scan

/-! ### Formats -/

section Formats

variable {ε α : Type} {encode : α → Except (Failure ε) Bytes}
  {decode : Slice → Except (Failure ε) α} {valid accepted : α → Prop} {wire : α → Bytes}

def Decodes (decode : Slice → Except (Failure ε) α) (valid : α → Prop) (wire : α → Bytes) : Prop :=
  ∀ b v, decode b = .ok v ↔ valid v ∧ wire v = b.bytes

/-- The encoder writes the wire image of what it accepts, if that can be allocated. -/
def Encodes (encode : α → Except (Failure ε) Bytes) (accepted : α → Prop) (wire : α → Bytes) :
    Prop :=
  ∀ v b, encode v = .ok b ↔ accepted v ∧ (wire v).length ≤ isizeMax ∧ b = wire v

theorem Scan.ReadsAll.decodes {p : Scan ε α} (hp : p.ReadsAll valid wire) :
    Decodes (fun b => p.run' (.new b)) valid wire := by
  intro b v
  rw [Scan.run'_eq_ok, ← Cursor.takes_all]
  constructor
  · rintro ⟨c', hrun⟩
    obtain ⟨hvalid, htakes, hend⟩ := (hp _ _ _).mp hrun
    exact ⟨hvalid, c', htakes, hend⟩
  · rintro ⟨hvalid, c', htakes, hend⟩
    exact ⟨c', (hp _ _ _).mpr ⟨hvalid, htakes, hend⟩⟩

theorem Encodes.roundTrip (hencode : Encodes encode accepted wire)
    (hdecode : Decodes decode valid wire) (haccepted : ∀ v, accepted v → valid v) {v : α} {b : Bytes}
    (hok : encode v = .ok b) : ∃ hfits : b.length ≤ isizeMax, decode ⟨b, hfits⟩ = .ok v := by
  obtain ⟨hv, hfits, rfl⟩ := (hencode v b).mp hok
  exact ⟨hfits, (hdecode _ _).mpr ⟨haccepted v hv, rfl⟩⟩

theorem Decodes.canonical (hdecode : Decodes decode valid wire)
    (hencode : Encodes encode accepted wire) (hvalid : ∀ v, valid v → accepted v) {b : Slice} {v : α}
    (hok : decode b = .ok v) : encode v = .ok b.bytes := by
  obtain ⟨hv, hwire⟩ := (hdecode b v).mp hok
  refine (hencode v b.bytes).mpr ⟨hvalid v hv, ?_, hwire.symm⟩
  rw [hwire]
  exact b.fits

end Formats

/-! ### Writers -/

section Writers

variable {ε α : Type}
  {valid : Prop} {bytes : Nat} {add : Nat → Except (Failure ε) Nat}

theorem bind_eq_ok_iff {β : Type} {result : Except ε α} {next : α → Except ε β} {b : β} :
    result >>= next = .ok b ↔ ∃ a, result = .ok a ∧ next a = .ok b := by
  constructor
  · exact bind_eq_ok
  · rintro ⟨a, rfl, hnext⟩
    exact hnext

theorem pure_eq_ok {a b : α} : (pure a : Except ε α) = .ok b ↔ b = a := by
  simp [pure, Except.pure, eq_comm]

def Appends (write : Bytes → Except (Failure ε) Bytes) (valid : Prop) (out : Bytes) : Prop :=
  ∀ b b', write b = .ok b' ↔ valid ∧ b' = b ++ out

theorem Appends.foldlM {write : Bytes → α → Except (Failure ε) Bytes} {valid : α → Prop}
    {out : α → Bytes} (xs : List α) (hwrite : ∀ x ∈ xs, Appends (write · x) (valid x) (out x)) :
    Appends (fun b => xs.foldlM write b) (∀ x ∈ xs, valid x) (xs.flatMap out) := by
  induction xs with
  | nil =>
    intro b b'
    simp [pure, Except.pure, eq_comm]
  | cons x xs ih =>
    intro b b'
    obtain ⟨hhead, htail⟩ := List.forall_mem_cons.mp hwrite
    have ih := ih htail
    simp only [foldlM_cons, bind_eq_ok_iff, hhead b _, forall_mem_cons, flatMap_cons]
    constructor
    · rintro ⟨_, ⟨hx, rfl⟩, hrest⟩
      obtain ⟨hxs, rfl⟩ := (ih _ _).mp hrest
      exact ⟨⟨hx, hxs⟩, append_assoc _ _ _⟩
    · rintro ⟨⟨hx, hxs⟩, rfl⟩
      exact ⟨_, ⟨hx, rfl⟩, (ih _ _).mpr ⟨hxs, (append_assoc _ _ _).symm⟩⟩

theorem foldl_append_flatMap {push : Bytes → α → Bytes} {out : α → Bytes}
    (hpush : ∀ b x, push b x = b ++ out x) (xs : List α) (b : Bytes) :
    xs.foldl push b = b ++ xs.flatMap out := by
  induction xs generalizing b with
  | nil => simp
  | cons x xs ih => rw [foldl_cons, ih, hpush, flatMap_cons, append_assoc]

def Grows (add : Nat → Except (Failure ε) Nat) (valid : Prop) (bytes : Nat) : Prop :=
  ∀ size size', size ≤ isizeMax →
    (add size = .ok size' ↔ valid ∧ size' = size + bytes ∧ size' ≤ isizeMax)

theorem Grows.bind {first second : Nat → Except (Failure ε) Nat} {valid' : Prop}
    {bytes' : Nat} (hfirst : Grows first valid bytes) (hsecond : Grows second valid' bytes') :
    Grows (fun size => first size >>= second) (valid ∧ valid') (bytes + bytes') := by
  intro size size' hsize
  rw [bind_eq_ok_iff]
  constructor
  · rintro ⟨middle, hok, hok'⟩
    obtain ⟨hvalid, rfl, hmiddle⟩ := (hfirst size middle hsize).mp hok
    obtain ⟨hvalid', rfl, hend⟩ := (hsecond _ size' hmiddle).mp hok'
    exact ⟨⟨hvalid, hvalid'⟩, Nat.add_assoc _ _ _, hend⟩
  · rintro ⟨⟨hvalid, hvalid'⟩, rfl, hend⟩
    have hmiddle : size + bytes ≤ isizeMax := by omega
    exact ⟨size + bytes, (hfirst _ _ hsize).mpr ⟨hvalid, rfl, hmiddle⟩,
      (hsecond _ _ hmiddle).mpr ⟨hvalid', (Nat.add_assoc _ _ _).symm, hend⟩⟩

theorem Grows.congr {valid' : Prop} {bytes' : Nat}
    (hadd : Grows add valid bytes) (hvalid : valid ↔ valid') (hbytes : bytes = bytes') :
    Grows add valid' bytes' := by
  rw [← hbytes]
  intro size size' hsize
  rw [← hvalid]
  exact hadd size size' hsize

theorem Grows.eq_ok {header total : Nat}
    (hadd : Grows add valid bytes) (htotal : total = header + bytes) (hheader : header ≤ isizeMax)
    (size : Nat) : add header = .ok size ↔ valid ∧ size = total ∧ total ≤ isizeMax := by
  rw [hadd header size hheader, htotal]
  constructor
  · rintro ⟨hvalid, rfl, hfits⟩
    exact ⟨hvalid, rfl, hfits⟩
  · rintro ⟨hvalid, rfl, hfits⟩
    exact ⟨hvalid, rfl, hfits⟩

theorem Grows.check {β : Type} {test : Except (Failure ε) β} {passes : Prop}
    (htest : (∃ a, test = .ok a) ↔ passes) (hadd : Grows add valid bytes) :
    Grows (fun size => test >>= fun _ => add size) (passes ∧ valid) bytes := by
  intro size size' hsize
  rw [bind_eq_ok_iff, ← htest]
  constructor
  · rintro ⟨a, ha, hok⟩
    obtain ⟨hvalid, hsum⟩ := (hadd size size' hsize).mp hok
    exact ⟨⟨⟨a, ha⟩, hvalid⟩, hsum⟩
  · rintro ⟨⟨⟨a, ha⟩, hvalid⟩, hsum⟩
    exact ⟨a, ha, (hadd size size' hsize).mpr ⟨hvalid, hsum⟩⟩

theorem Grows.foldlM {add : Nat → α → Except (Failure ε) Nat} {valid : α → Prop} {bytes : α → Nat}
    (xs : List α) (hadd : ∀ x ∈ xs, Grows (add · x) (valid x) (bytes x)) :
    Grows (fun size => xs.foldlM add size) (∀ x ∈ xs, valid x) (xs.map bytes).sum := by
  induction xs with
  | nil =>
    intro size size' hsize
    simp only [foldlM_nil, pure, Except.pure, Except.ok.injEq, not_mem_nil,
      false_implies, implies_true, map_nil, sum_nil, Nat.add_zero, true_and]
    omega
  | cons x xs ih =>
    intro size size' hsize
    simp only [foldlM_cons, forall_mem_cons, map_cons, sum_cons]
    obtain ⟨hhead, htail⟩ := List.forall_mem_cons.mp hadd
    exact hhead.bind (ih htail) size size' hsize

end Writers

end OrbitKV
