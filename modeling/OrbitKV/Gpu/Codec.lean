import OrbitKV.Lib.Ranges
import OrbitKV.Lib.Wire
import OrbitKV.Storage.Block

/-!
# Decoding on the GPU

The checks that a batch of encoded segments passes before anything is decoded. Addresses and sizes
are numbers; streams, kernels and the contents of the memory are left out.
-/

namespace OrbitKV

/-! ### Metadata -/

/-- Split keys and values are resolved before, so that the last case is not reached. -/
def vectorBytes (dim bits : Nat) : AttentionRole → Nat
  | .key => (dim * bits + 7) / 8 + 2
  | .value => (dim * bits + 7) / 8 + 4
  | .packedKeyValue => 2 * ((dim * bits + 7) / 8) + 6
  | .keyValue => 0

def turboquantBytes (logical dim bits : Nat) (role : AttentionRole) : Option Nat :=
  if dim < 32 ∨ 256 < dim ∨ 2 ^ dim.log2 ≠ dim ∨ (bits ≠ 3 ∧ bits ≠ 4) ∨ role = .keyValue then
    none
  else
    let sourceWidth := dim * if role = .packedKeyValue then 4 else 2
    if logical = 0 ∨ logical % sourceWidth ≠ 0 then
      none
    else
      let bytes := logical / sourceWidth * vectorBytes dim bits role
      if bytes < 2 ^ 64 then some bytes else none

namespace EncodedSegment

def hasGeometry (segment : EncodedSegment) : Bool :=
  match segment.format with
  | .exact => segment.logicalBytes = segment.storedBytes
  | .ans | .ansFp8 => true
  | .ans16 => segment.logicalBytes % 2 = 0
  | .fp8FromBf16 | .fp8FromFp16 => segment.storedBytes * 2 = segment.logicalBytes
  | .turboQuant _ role headDim _ bits =>
    turboquantBytes segment.logicalBytes headDim.toNat bits.toNat role = some segment.storedBytes
  | .attention .. | .fp8Native => false

def validateMetadata (segment : EncodedSegment) (availableBytes : Nat) : Except String Unit :=
  if segment.version ≠ 1 ∨ segment.logicalBytes = 0 ∨ segment.storedBytes = 0 ∨
      isizeMax < segment.logicalBytes ∨ isizeMax < segment.storedBytes ∨
      availableBytes < segment.storedBytes ∨
      (segment.format ≠ .exact ∧ (16 * 1024 * 1024 < segment.logicalBytes ∨
        32 * 1024 * 1024 < segment.storedBytes)) then
    .error "invalid encoded segment bounds/version"
  else if segment.hasGeometry then
    .ok ()
  else
    .error "invalid encoded segment geometry"

end EncodedSegment

/-! ### Ranges -/

def maxBatchSegments : Nat := 256

def ansType : StorageFormat → Option Nat
  | .ans => some 1
  | .ans16 => some 9
  | .ansFp8 => some 10
  | _ => none

structure DecodeInput where
  source : Nat
  sourceBytes : Nat
  target : Nat
  targetBytes : Nat
  segment : EncodedSegment

/-- An allocation on the device; the codec's is never empty. -/
structure Arena where
  allocation : Nat
  bytes : Nat
  bytes_pos : 0 < bytes

def refuseIf (condition : Prop) [Decidable condition] (error : String) : Except String Unit :=
  if condition then .error error else .ok ()

def onDevice (host : Bool) (check : Except String Unit) : Except String Unit :=
  if host then .ok () else check

def checkRange (pointer bytes : Nat) : Except String Unit :=
  refuseIf (pointer = 0 ∨ bytes = 0 ∨ isizeMax < bytes ∨ 2 ^ 64 ≤ pointer + bytes)
    "invalid GPU codec device range"

def rangeFrom (pointer bytes : Nat) : Nat × Nat :=
  (pointer, pointer + bytes)

def validateTargets (ranges : List (Nat × Nat)) : Except String (List (Nat × Nat)) := do
  let targets ← ranges.mapM fun (pointer, bytes) => do
    checkRange pointer bytes
    return rangeFrom pointer bytes
  refuseIf (neighboursOverlap (sortRanges targets)) "GPU decode target ranges overlap"
  return sortRanges targets

def Arena.Overlap (arena : Arena) (pointer bytes : Nat) : Prop :=
  pointer < arena.allocation + arena.bytes ∧ arena.allocation < pointer + bytes
deriving Decidable

namespace DecodeInput

def alignment (input : DecodeInput) : Nat :=
  if (ansType input.segment.format).isSome then 8
  else if input.segment.format = .exact then 1
  else 2

/-- The body of the first loop of `validate_decode`. -/
def validate (arena : Option Arena) (host : Bool) (input : DecodeInput) : Except String Unit := do
  input.segment.validateMetadata input.sourceBytes
  refuseIf (input.targetBytes < input.segment.logicalBytes) "GPU decode target capacity mismatch"
  onDevice host (checkRange input.source input.segment.storedBytes)
  refuseIf (input.target % input.alignment ≠ 0 ∨
      host = false ∧ (ansType input.segment.format).isSome ∧ input.source % 8 ≠ 0)
    "GPU decode device alignment mismatch"
  refuseIf (∃ area ∈ arena, area.Overlap input.target input.segment.logicalBytes ∨
      host = false ∧ area.Overlap input.source input.segment.storedBytes)
    "GPU decode range aliases reusable codec arena"

/-- The body of the second loop: one probe of the sorted targets. -/
def validateSource (targets : List (Nat × Nat)) (input : DecodeInput) : Except String Unit :=
  let stop := input.source + input.segment.storedBytes
  let index := partitionPoint (fun range => range.1 < stop) targets
  refuseIf (index ≠ 0 ∧ (targets[index - 1]?).any fun range => input.source < range.2)
    "GPU decode source and target ranges overlap"

end DecodeInput

def validateDecode (arena : Option Arena) (inputs : List DecodeInput) (host : Bool) :
    Except String Unit := do
  refuseIf (maxBatchSegments < inputs.length) "GPU codec batch segment limit exceeded"
  let targets ← validateTargets (inputs.map fun input => (input.target, input.segment.logicalBytes))
  inputs.forM (·.validate arena host)
  onDevice host (inputs.forM (·.validateSource targets))

end OrbitKV
