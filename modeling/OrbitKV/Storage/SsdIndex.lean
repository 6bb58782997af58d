import OrbitKV.Storage.Block
import OrbitKV.Storage.Inventory

/-!
# The SSD ring index

A logical offset only grows; the bytes of an entry lie at its remainder by the capacity. The number
of shards never changes, so a shard id is an element of `Fin n`.

The reader count of an entry is an atomic behind an `Arc`: the entry keeps the number of its cell,
and the methods that load a count are given the contents of all cells. Counts are not bounded: each
lease also owns a reference to the store, whose count would abort the process first.
-/

namespace OrbitKV

open Std

def checkedNextMultipleOf (value multiple : Nat) : Option Nat :=
  if multiple = 0 then none
  else if value % multiple = 0 then some value
  else boundedAdd value (multiple - value % multiple)

theorem exists_nextMultiple (value multiple : Nat) (hpos : 0 < multiple)
    (hfits : value + multiple ≤ u64Bound) :
    ∃ padded, checkedNextMultipleOf value multiple = some padded ∧ multiple ∣ padded ∧
      value ≤ padded ∧ padded < value + multiple := by
  unfold checkedNextMultipleOf
  rw [if_neg hpos.ne']
  have hrest := Nat.mod_lt value hpos
  split
  case isTrue hzero => exact ⟨value, rfl, Nat.dvd_of_mod_eq_zero hzero, le_rfl, by omega⟩
  case isFalse hrest' =>
    have hsum : value + (multiple - value % multiple) = multiple * (value / multiple + 1) := by
      have := Nat.div_add_mod value multiple
      rw [Nat.mul_add]
      omega
    refine ⟨value + (multiple - value % multiple), if_pos (by omega), ?_, by omega, by omega⟩
    exact hsum ▸ Nat.dvd_mul_right _ _

structure SlotMeta where
  segmentSizes : List Nat
  totalSize : Nat
  encoding : Option (List EncodedSegment)
  deriving DecidableEq, Repr

def SlotMeta.new (segmentSizes : List Nat) : SlotMeta where
  segmentSizes := segmentSizes
  totalSize := segmentSizes.sum
  encoding := none

inductive Encoding where
  | raw
  | encoded
  deriving DecidableEq, Repr

structure SsdIndexEntry (n : Nat) where
  shardId : Fin n
  begin : Nat
  len : Nat
  fileOffset : Nat
  slots : List SlotMeta
  encoding : Encoding
  readers : Nat
  deriving DecidableEq, Repr

def SsdIndexEntry.replicaMetadata {n : Nat} (entry : SsdIndexEntry n) : ReplicaMetadata where
  medium := .ssd
  representation := mergeRepresentations (entry.slots.map (encodingRepresentation ·.encoding))
  storedBytes := some (entry.slots.foldl (fun bytes slot => saturatingAdd bytes slot.totalSize) 0)

inductive SsdEntryState (n : Nat) where
  | writing (entry : SsdIndexEntry n)
  | committed (entry : SsdIndexEntry n)
  | invalid (entry : SsdIndexEntry n)
  deriving DecidableEq, Repr

namespace SsdEntryState

variable {n : Nat}

def entry : SsdEntryState n → SsdIndexEntry n
  | .writing e | .committed e | .invalid e => e

def isWriting : SsdEntryState n → Bool
  | .writing _ => true
  | _ => false

end SsdEntryState

structure SsdShardRing where
  capacity : Nat
  head : Nat
  tail : Nat
  order : List (StateKey × Nat)

/-- The logical offset at which `allocate_contiguous` would begin: the rest of the round is skipped
if the range does not fit into it. -/
def SsdShardRing.beginOf (shard : SsdShardRing) (size : Nat) : Option Nat :=
  let phys := shard.head % shard.capacity
  let spaceUntilEnd := shard.capacity - phys
  if spaceUntilEnd < size then boundedAdd shard.head spaceUntilEnd else some shard.head

structure SsdRingBuffer (n : Nat) where
  shards : Fin n → SsdShardRing
  nextShard : Fin n
  alignment : Nat
  entries : ExtTreeMap StateKey (SsdEntryState n)
  retired : List StateKey

namespace SsdRingBuffer

variable {n : Nat}

def newSharded [NeZero n] (shardCapacities : Fin n → Nat) (alignment : Nat) : SsdRingBuffer n where
  shards shard := ⟨shardCapacities shard, 0, 0, []⟩
  nextShard := 0
  alignment := alignment
  entries := ∅
  retired := []

def isOffsetValid (ring : SsdRingBuffer n) (entry : SsdIndexEntry n) : Bool :=
  (ring.shards entry.shardId).tail ≤ entry.begin

def get (ring : SsdRingBuffer n) (key : StateKey) : Option (SsdIndexEntry n) :=
  match ring.entries[key]? with
  | some (.committed entry) => if ring.isOffsetValid entry then some entry else none
  | _ => none

/-- The test by which an index entry is recognized as the generation of another. -/
def sameGeneration (entry other : SsdIndexEntry n) : Bool :=
  entry.shardId = other.shardId && entry.begin = other.begin

def invalidateEncoded (readers : Nat → Nat) (ring : SsdRingBuffer n) (key : StateKey)
    (failed : SsdIndexEntry n) : Bool × SsdRingBuffer n :=
  match ring.entries[key]? with
  | some (.committed entry) | some (.invalid entry) =>
    if sameGeneration entry failed && entry.encoding = .encoded then
      (true, { ring with
        entries :=
          if readers failed.readers = 0 then ring.entries.erase key
          else ring.entries.insert key (.invalid failed) })
    else
      (false, ring)
  | _ => (false, ring)

def releaseInvalid (readers : Nat → Nat) (ring : SsdRingBuffer n) (key : StateKey)
    (released : SsdIndexEntry n) : SsdRingBuffer n :=
  match ring.entries[key]? with
  | some (.invalid entry) =>
    if sameGeneration entry released && readers entry.readers = 0 then
      { ring with entries := ring.entries.erase key }
    else
      ring
  | _ => ring

/-! ### Allocation -/

/-- The state a pair of the FIFO order refers to, if the key still names that generation. -/
def current (entries : ExtTreeMap StateKey (SsdEntryState n)) (shardId : Fin n)
    (key : StateKey) (generation : Nat) : Option (SsdEntryState n) :=
  entries[key]?.filter fun state =>
    state.entry.shardId = shardId && state.entry.begin = generation

/-- The scan of `allocate_contiguous`: whether the tail may move to `newTail` without passing an
entry that is being written or read. -/
def unpinnedBelow (readers : Nat → Nat) (entries : ExtTreeMap StateKey (SsdEntryState n))
    (shardId : Fin n) (newTail : Nat) : List (StateKey × Nat) → Bool
  | [] => true
  | (key, generation) :: order =>
    match current entries shardId key generation with
    | some state =>
      if newTail ≤ state.entry.begin then true
      else if state.isWriting || readers state.entry.readers ≠ 0 then false
      else unpinnedBelow readers entries shardId newTail order
    | none => unpinnedBelow readers entries shardId newTail order

/-- The loop of `advance_tail` over the FIFO order. -/
def pruneOrder (shardId : Fin n) (newTail : Nat) : List (StateKey × Nat) →
    ExtTreeMap StateKey (SsdEntryState n) → List StateKey →
    List (StateKey × Nat) × ExtTreeMap StateKey (SsdEntryState n) × List StateKey
  | [], entries, retired => ([], entries, retired)
  | (key, generation) :: order, entries, retired =>
    if (current entries shardId key generation).isSome then
      if newTail ≤ generation then ((key, generation) :: order, entries, retired)
      else pruneOrder shardId newTail order (entries.erase key) (retired ++ [key])
    else
      pruneOrder shardId newTail order entries retired

def advanceTail (ring : SsdRingBuffer n) (shardId : Fin n) (newTail : Nat) : SsdRingBuffer n :=
  let shard := ring.shards shardId
  if newTail ≤ shard.tail then ring
  else
    let (order, entries, retired) := pruneOrder shardId newTail shard.order ring.entries ring.retired
    { ring with
      shards := Function.update ring.shards shardId { shard with tail := newTail, order := order }
      entries := entries
      retired := retired }

/-- The logical and the physical offset of the allocated range, and the ring afterwards. -/
def allocateContiguous (readers : Nat → Nat) (ring : SsdRingBuffer n) (shardId : Fin n)
    (size : Nat) : Option (Nat × Nat × SsdRingBuffer n) := do
  let shard := ring.shards shardId
  guard ¬(size = 0 ∨ shard.capacity < size)
  let begin ← shard.beginOf size
  let head ← boundedAdd begin size
  let newTail := head - shard.capacity
  guard (unpinnedBelow readers ring.entries shardId newTail shard.order)
  let ring := { ring with shards := Function.update ring.shards shardId { shard with head := head } }
  return (begin, begin % shard.capacity, ring.advanceTail shardId newTail)

def takeRetired (ring : SsdRingBuffer n) : List StateKey × SsdRingBuffer n :=
  (ring.retired, { ring with retired := [] })

def commit (ring : SsdRingBuffer n) (key : StateKey) (success : Bool) : Bool × SsdRingBuffer n :=
  match ring.entries[key]? with
  | none => (false, ring)
  | some (.committed _) => (true, ring)
  | some (.invalid _) => (false, ring)
  | some (.writing entry) =>
    if !ring.isOffsetValid entry then
      (false, { ring with entries := ring.entries.erase key })
    else if success then
      (true, { ring with entries := ring.entries.insert key (.committed entry) })
    else
      (false, { ring with entries := ring.entries.erase key })

def payloadBytes (slots : List SlotMeta) : Option Nat :=
  slots.foldlM (fun sum slot => boundedAdd sum slot.totalSize) 0

/-- `cell` is the reader count allocated for the new entry. -/
def reserve [NeZero n] (readers : Nat → Nat) (cell : Nat) (ring : SsdRingBuffer n) (key : StateKey)
    (slots : List SlotMeta) (encoding : Encoding) : Option (SsdIndexEntry n × SsdRingBuffer n) := do
  guard ¬ring.entries.contains key
  let payload ← payloadBytes slots
  let size ← checkedNextMultipleOf payload ring.alignment
  let (shardId, begin, fileOffset, ring) ← (List.range n).findSome? fun offset =>
    let shardId := ring.nextShard + Fin.ofNat n offset
    (allocateContiguous readers ring shardId size).map fun (begin, fileOffset, ring) =>
      (shardId, begin, fileOffset, ring)
  let entry := ⟨shardId, begin, size, fileOffset, slots, encoding, cell⟩
  let shard := ring.shards shardId
  return (entry,
    { ring with
      nextShard := shardId + 1
      entries := ring.entries.insert key (.writing entry)
      shards := Function.update ring.shards shardId
        { shard with order := shard.order ++ [(key, begin)] } })

end SsdRingBuffer

end OrbitKV
