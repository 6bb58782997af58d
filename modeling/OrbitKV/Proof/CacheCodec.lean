import OrbitKV.Channel.CacheProtocol

/-!
# What the decoders read and the encoders write

One equivalence for each method of the decoder and each helper of the encoders.
-/

namespace OrbitKV

/-! ### Words and texts -/

theorem leBytes_mod (width n : Nat) : leBytes width (n % 256 ^ width) = leBytes width n := by
  induction width generalizing n with
  | zero => rfl
  | succ width ih =>
    have hhead : UInt8.ofNat (n % 256 ^ (width + 1)) = UInt8.ofNat n := by
      apply UInt8.toNat_inj.mp
      rw [UInt8.toNat_ofNat', UInt8.toNat_ofNat', Nat.pow_succ,
        Nat.mod_mod_of_dvd _ (Nat.dvd_mul_left 256 _)]
    have htail : n % 256 ^ (width + 1) / 256 = n / 256 % 256 ^ width := by
      rw [Nat.pow_succ, Nat.mul_comm, Nat.mod_mul_right_div_self]
    rw [leBytes, leBytes, hhead, htail, ih]

theorem leBytes_uint16_ofNat (n : Nat) : leBytes 2 (UInt16.ofNat n).toNat = leBytes 2 n :=
  leBytes_mod 2 n

theorem leBytes_uint32_ofNat (n : Nat) : leBytes 4 (UInt32.ofNat n).toNat = leBytes 4 n :=
  leBytes_mod 4 n

@[simp]
theorem leBytes_four_mod (n : Nat) : leBytes 4 (n % 4294967296) = leBytes 4 n := leBytes_mod 4 n

namespace Decoder

variable {α : Type} {c c' : Cursor}

open Scan

/-! ### The methods of the decoder -/

@[simp]
theorem run_bytes {len : Nat} {taken : Bytes} :
    (bytes len).run c = .ok (taken, c') ↔ taken.length = len ∧ c.Takes taken c' :=
  run_take_eq_ok

theorem run_fixed {width n : Nat} :
    (fixed width).run c = .ok (n, c') ↔ n < 256 ^ width ∧ c.Takes (leBytes width n) c' := by
  rw [fixed, run_bind_eq_ok]
  constructor
  · rintro ⟨raw, c₁, hraw, hok⟩
    obtain ⟨hlen, htakes⟩ := run_bytes.mp hraw
    rw [if_pos hlen] at hok
    obtain ⟨rfl, rfl⟩ := run_pure_eq_ok.mp hok
    subst hlen
    exact ⟨ofLe_lt raw, by rwa [leBytes_ofLe]⟩
  · rintro ⟨hn, htakes⟩
    refine ⟨_, c', run_bytes.mpr ⟨length_leBytes width n, htakes⟩, ?_⟩
    rw [if_pos (length_leBytes width n)]
    exact run_pure_eq_ok.mpr ⟨(ofLe_leBytes hn).symm, rfl⟩

@[simp]
theorem run_u16 {value : UInt16} :
    u16.run c = .ok (value, c') ↔ c.Takes (leBytes 2 value.toNat) c' := by
  simp only [u16, run_bind_eq_ok, run_fixed, run_pure_eq_ok]
  constructor
  · rintro ⟨n, _, ⟨hn, htakes⟩, rfl, rfl⟩
    rwa [leBytes_uint16_ofNat]
  · intro htakes
    exact ⟨_, c', ⟨value.toNat_lt, htakes⟩, UInt16.ofNat_toNat.symm, rfl⟩

@[simp]
theorem run_u32 {value : UInt32} :
    u32.run c = .ok (value, c') ↔ c.Takes (leBytes 4 value.toNat) c' := by
  simp only [u32, run_bind_eq_ok, run_fixed, run_pure_eq_ok]
  constructor
  · rintro ⟨n, _, ⟨hn, htakes⟩, rfl, rfl⟩
    rwa [leBytes_uint32_ofNat]
  · intro htakes
    exact ⟨_, c', ⟨value.toNat_lt, htakes⟩, UInt32.ofNat_toNat.symm, rfl⟩

@[simp]
theorem run_i32 {value : Int32} :
    i32.run c = .ok (value, c') ↔ c.Takes (leBytes 4 value.toUInt32.toNat) c' := by
  simp only [i32, run_bind_eq_ok, run_fixed, run_pure_eq_ok]
  constructor
  · rintro ⟨n, _, ⟨hn, htakes⟩, rfl, rfl⟩
    rwa [UInt32.toUInt32_toInt32, leBytes_uint32_ofNat]
  · intro htakes
    refine ⟨_, c', ⟨value.toUInt32.toNat_lt, htakes⟩, ?_, rfl⟩
    rw [UInt32.ofNat_toNat]
    rfl

@[simp]
theorem run_u64 {value : UInt64} :
    u64.run c = .ok (value, c') ↔ c.Takes (leBytes 8 value.toNat) c' := by
  simp only [u64, run_bind_eq_ok, run_fixed, run_pure_eq_ok]
  constructor
  · rintro ⟨n, _, ⟨hn, htakes⟩, rfl, rfl⟩
    have hword : (UInt64.ofNat n).toNat = n := UInt64.toNat_ofNat_of_lt' hn
    rwa [hword]
  · intro htakes
    exact ⟨_, c', ⟨value.toNat_lt, htakes⟩, UInt64.ofNat_toNat.symm, rfl⟩

@[simp]
theorem run_usizeU32 {value : UInt32} :
    usizeU32.run c = .ok (value, c') ↔ c.Takes (leBytes 4 value.toNat) c' :=
  run_u32

@[simp]
theorem run_expectMagic {expected : UInt32} {u : Unit} :
    (expectMagic expected).run c = .ok (u, c') ↔ c.Takes (leBytes 4 expected.toNat) c' := by
  simp only [expectMagic, run_bind_eq_ok, run_u32, run_rejectIf_eq_ok, ne_eq, not_not]
  constructor
  · rintro ⟨actual, _, htakes, rfl, rfl⟩
    exact htakes
  · intro htakes
    exact ⟨expected, c', htakes, rfl, rfl⟩

@[simp]
theorem run_expectVersion {u : Unit} :
    expectVersion.run c = .ok (u, c') ↔ c.Takes (leBytes 2 cacheProtocolVersion.toNat) c' := by
  simp only [expectVersion, run_bind_eq_ok, run_u16, run_rejectIf_eq_ok, ne_eq, not_not]
  constructor
  · rintro ⟨version, _, htakes, rfl, rfl⟩
    exact htakes
  · intro htakes
    exact ⟨_, c', htakes, rfl, rfl⟩

theorem fromUtf8_eq_ok {raw : Bytes} {field text : String} :
    fromUtf8 raw field = .ok text ↔ raw = asBytes text := by
  rw [← fromUTF8_eq_some]
  unfold fromUtf8
  constructor
  · intro hok
    split at hok
    next decoded hdecoded =>
      cases hok
      exact hdecoded
    · cases hok
  · intro htext
    rw [htext]

@[simp]
theorem run_string {len : UInt32} {field text : String} :
    (string len field).run c = .ok (text, c') ↔
      (asBytes text).length = len.toNat ∧ c.Takes (asBytes text) c' := by
  simp only [string, run_bind_eq_ok, run_bytes, run_lift_eq_ok, fromUtf8_eq_ok]
  constructor
  · rintro ⟨_, _, ⟨hlen, htakes⟩, rfl, rfl⟩
    exact ⟨hlen, htakes⟩
  · rintro ⟨hlen, htakes⟩
    exact ⟨_, c', ⟨hlen, htakes⟩, rfl, rfl⟩

@[simp]
theorem run_finish {u : Unit} : finish.run c = .ok (u, c') ↔ c.rest = [] ∧ c' = c := by
  simp only [finish, run_bind_eq_ok, run_remaining_eq_ok, run_rejectIf_eq_ok, ne_eq, not_not]
  rw [← List.length_eq_zero_iff, Cursor.length_rest]
  constructor
  · rintro ⟨_, _, ⟨rfl, rfl⟩, hend, rfl⟩
    exact ⟨hend, rfl⟩
  · rintro ⟨hend, rfl⟩
    exact ⟨_, c', ⟨rfl, rfl⟩, hend, rfl⟩

/-! ### Lists -/

theorem capacity_fits {elementSize : Nat} (hsize : elementSize ≤ 72) (count : UInt32) :
    elementSize * count.toNat ≤ isizeMax := by
  have hcount : count.toNat < 2 ^ 32 := count.toNat_lt
  have hmul : elementSize * count.toNat ≤ 72 * 2 ^ 32 := Nat.mul_le_mul hsize hcount.le
  unfold isizeMax
  omega

section Lists

variable {item : Decode α} {valid : α → Prop} {image : α → Bytes}
  {xs : List α}

theorem run_vec (hitem : Reads item valid image) {elementSize : Nat} (hsize : elementSize ≤ 72)
    {count : UInt32} :
    (vec elementSize count item).run c = .ok (xs, c') ↔
      (xs.length = count.toNat ∧ ∀ x ∈ xs, valid x) ∧ c.Takes (xs.flatMap image) c' := by
  simp only [vec, run_bind_eq_ok, run_lift_eq_ok, withCapacity_eq_ok, (hitem.times _) _ _ _]
  constructor
  · rintro ⟨-, _, ⟨-, rfl⟩, hxs⟩
    exact hxs
  · intro hxs
    exact ⟨(), c, ⟨capacity_fits hsize count, rfl⟩, hxs⟩

theorem length_flatMap_le {width : Nat} (hwidth : ∀ x, valid x → width ≤ (image x).length)
    (hxs : ∀ x ∈ xs, valid x) : width * xs.length ≤ (xs.flatMap image).length := by
  induction xs with
  | nil => simp
  | cons x xs ih =>
    obtain ⟨hx, hrest⟩ := List.forall_mem_cons.mp hxs
    rw [List.flatMap_cons, List.length_append, List.length_cons, Nat.mul_succ, Nat.add_comm]
    exact Nat.add_le_add (hwidth x hx) (ih hrest)

theorem run_list (hitem : Reads item valid image) {width elementSize : Nat} (hpos : 0 < width)
    (hwidth : ∀ x, valid x → width ≤ (image x).length) (hsize : elementSize ≤ 72) {count : UInt32} :
    (list width elementSize count item).run c = .ok (xs, c') ↔
      (xs.length = count.toNat ∧ ∀ x ∈ xs, valid x) ∧ c.Takes (xs.flatMap image) c' := by
  simp only [list, run_bind_eq_ok, run_remaining_eq_ok, run_rejectIf_eq_ok, run_vec hitem hsize]
  constructor
  · rintro ⟨_, _, ⟨rfl, rfl⟩, -, _, ⟨-, rfl⟩, hxs⟩
    exact hxs
  · rintro ⟨⟨hlength, hvalid⟩, htakes⟩
    refine ⟨_, c, ⟨rfl, rfl⟩, (), c, ⟨?_, rfl⟩, ⟨hlength, hvalid⟩, htakes⟩
    have hbytes := length_flatMap_le hwidth hvalid
    have hremaining := htakes.remaining_eq
    rw [not_lt, ← hlength, Nat.le_div_iff_mul_le hpos, Nat.mul_comm]
    omega

end Lists

@[simp]
theorem eq_toNat_iff {n : Nat} {count : UInt32} :
    n = count.toNat ↔ count = UInt32.ofNat n ∧ n < 2 ^ 32 := by
  constructor
  · rintro rfl
    exact ⟨UInt32.ofNat_toNat.symm, count.toNat_lt⟩
  · rintro ⟨rfl, hn⟩
    exact (UInt32.toNat_ofNat_of_lt' hn).symm

theorem reads_counted {item : Decode α} {valid : α → Prop} {image : α → Bytes}
    (hitem : Reads item valid image) {width elementSize : Nat} (hpos : 0 < width)
    (hwidth : ∀ x, valid x → width ≤ (image x).length) (hsize : elementSize ≤ 72) :
    Reads (usizeU32 >>= fun count => list width elementSize count item)
      (fun xs => xs.length < 2 ^ 32 ∧ ∀ x ∈ xs, valid x)
      (fun xs => leBytes 4 xs.length ++ xs.flatMap image) := by
  intro c xs c'
  simp [-StateT.run_bind, run_list hitem hpos hwidth hsize, and_assoc]

theorem reads_u32 : Reads u32 (fun _ => True) (fun value => leBytes 4 value.toNat) := by
  intro c value c'
  rw [run_u32, true_and]

theorem reads_sized :
    Reads sized (fun value => value.length < 2 ^ 32)
      (fun value => leBytes 4 value.length ++ value) := by
  intro c value c'
  simp [-StateT.run_bind, sized, and_assoc]

end Decoder

end OrbitKV
