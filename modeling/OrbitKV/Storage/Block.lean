import OrbitKV.State.Record

/-!
# Stored blocks

NUMA nodes and the statistics of warm-ups are left out.
-/

namespace OrbitKV

inductive Scalar16 where
  | bf16
  | fp16
  deriving DecidableEq, Repr

inductive AttentionRole where
  | key
  | value
  | keyValue
  | packedKeyValue
  deriving DecidableEq, Repr

inductive StorageFormat where
  | exact
  | fp8FromBf16
  | fp8FromFp16
  | attention (scalar : Scalar16) (role : AttentionRole) (headDim layerIndex layerCount : UInt32)
  | ans
  | ans16
  | ansFp8
  | fp8Native
  | turboQuant (scalar : Scalar16) (role : AttentionRole) (headDim seed : UInt32) (bits : UInt8)
  deriving DecidableEq, Repr

def StorageFormat.representation : StorageFormat → ReplicaRepresentation
  | .ans | .ans16 | .ansFp8 => .ans
  | .fp8FromBf16 | .fp8FromFp16 => .fp8
  | .turboQuant .. => .turboQuant
  | .exact | .attention .. | .fp8Native => .raw

structure EncodedSegment where
  version : UInt32
  format : StorageFormat
  logicalBytes : Nat
  storedBytes : Nat
  checksum : UInt32
  deriving DecidableEq, Repr

/-- The loop by which slots and blocks summarize the representations of their parts. -/
def mergeRepresentations (parts : List ReplicaRepresentation) : ReplicaRepresentation :=
  (parts.foldl (fun merged next =>
    some (merged.elim next fun previous => if previous = next then previous else .mixed)) none).getD
      .unknown

/-- The representation of one slot: raw unless it carries encoding metadata. -/
def encodingRepresentation (encoding : Option (List EncodedSegment)) : ReplicaRepresentation :=
  encoding.elim .raw fun segments => mergeRepresentations (segments.map (·.format.representation))

structure Segment where
  ptr : Nat
  size : Nat
  deriving DecidableEq, Repr

structure RawBlock where
  encoding : Option (List EncodedSegment)
  segments : List Segment
  totalSize : Nat
  deriving DecidableEq, Repr

/-- A sealed block behind an `Arc`. The pointer identifies it: `Arc::ptr_eq` is equality here. -/
structure SealedBlock where
  pointer : Nat
  slots : List RawBlock
  footprint : Nat
  deriving DecidableEq, Repr

def SealedBlock.memoryFootprint (block : SealedBlock) : Nat :=
  block.footprint

def SealedBlock.replicaMetadata (block : SealedBlock) : ReplicaMetadata where
  medium := .dram
  representation := mergeRepresentations (block.slots.map (encodingRepresentation ·.encoding))
  storedBytes := some block.footprint

end OrbitKV
