import Mathlib.Tactic

/-!
# Bytes in words of eight

A byte string in consecutive words, the last one filled up with zeros.
-/

namespace OrbitKV

open List

def wordCount (length : Nat) : Nat :=
  (length + 7) / 8

def chunkWord (bytes : List UInt8) (index : Nat) : List UInt8 :=
  let chunk := (bytes.drop (8 * index)).take 8
  chunk ++ List.replicate (8 - chunk.length) 0

def storeBytes (memory : Nat → List UInt8) (base : Nat) (bytes : List UInt8) : Nat → List UInt8 :=
  fun word =>
    if base ≤ word ∧ word < base + wordCount bytes.length then chunkWord bytes (word - base)
    else memory word

def loadBytes (memory : Nat → List UInt8) (base length : Nat) : List UInt8 :=
  ((List.range (wordCount length)).flatMap fun index => memory (base + index)).take length

variable {memory memory' : Nat → List UInt8} {base length : Nat} {bytes : List UInt8}

theorem length_le_words (length : Nat) : length ≤ 8 * wordCount length := by
  unfold wordCount
  omega

theorem flatMap_chunkWord (bytes : List UInt8) (count : Nat) :
    (List.range count).flatMap (chunkWord bytes) =
      bytes.take (8 * count) ++ List.replicate (8 * count - bytes.length) 0 := by
  induction count with
  | zero => simp
  | succ count ih =>
    rw [range_succ, flatMap_append, ih, flatMap_singleton]
    have hnext : 8 * (count + 1) = 8 * count + 8 := by ring
    rw [hnext, take_add]
    by_cases hinside : 8 * count ≤ bytes.length
    · have hnone : 8 * count - bytes.length = 0 := by omega
      simp only [chunkWord, hnone, replicate_zero, append_nil, length_take,
        length_drop, append_assoc]
      congr 3
      omega
    · have hempty : bytes.drop (8 * count) = [] := drop_eq_nil_of_le (by omega)
      have hsum : 8 * count + 8 - bytes.length = (8 * count - bytes.length) + 8 := by omega
      rw [chunkWord, hempty, hsum, replicate_add]
      simp

theorem loadBytes_storeBytes (memory : Nat → List UInt8) (base : Nat) (bytes : List UInt8) :
    loadBytes (storeBytes memory base bytes) base bytes.length = bytes := by
  have hwords : (List.range (wordCount bytes.length)).flatMap
      (fun index => storeBytes memory base bytes (base + index)) =
        (List.range (wordCount bytes.length)).flatMap (chunkWord bytes) := by
    apply flatMap_congr
    intro index hindex
    have hlt := List.mem_range.mp hindex
    rw [storeBytes, if_pos ⟨Nat.le_add_right _ _, by omega⟩, Nat.add_sub_cancel_left]
  have hle := length_le_words bytes.length
  rw [loadBytes, hwords, flatMap_chunkWord, take_of_length_le (l := bytes) hle, take_left]

theorem loadBytes_congr
    (hwords : ∀ index, index < wordCount length → memory (base + index) = memory' (base + index)) :
    loadBytes memory base length = loadBytes memory' base length := by
  unfold loadBytes
  congr 1
  exact flatMap_congr fun index hindex => hwords index (List.mem_range.mp hindex)

theorem storeBytes_outside {word : Nat}
    (houtside : word < base ∨ base + wordCount bytes.length ≤ word) :
    storeBytes memory base bytes word = memory word :=
  if_neg (by omega)

end OrbitKV
