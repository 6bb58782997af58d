import OrbitKV.Lib.Moves
import OrbitKV.Lib.Word
import OrbitKV.Storage.SsdIndex

/-!
# Batches of GPU storage

Reads are merged into aligned batches that fit the staging buffer; a write covers its whole
reservation, with zeros where no copy lies. An unchecked operator panics where it would overflow.
Streams, events, registrations and metrics are left out: all calls of a submission have completed
with the expected byte count.
-/

namespace OrbitKV

def alignment : Nat := 4096

def stagingBytes : Nat := 4 * 1024 * 1024

structure CopyRange where
  fileOffset : Nat
  device : Nat
  bytes : Nat
  deriving DecidableEq, Repr

structure IoBatch where
  fileOffset : Nat
  bytes : Nat
  copies : List CopyRange
  deriving DecidableEq, Repr

abbrev Planned (α : Type) := Except (Failure String) α

/-- A `checked_add` whose sum is also an `i64`. -/
def fileEnd (offset bytes : Nat) : Option Nat :=
  (boundedAdd offset bytes).filter (· < 2 ^ 63)

variable (batch : IoBatch) (copy : CopyRange)

/-- The check of one copy of a batch that ends at `stop`. -/
def IoBatch.exceeds (stop : Nat) (copy : CopyRange) : Bool :=
  copy.device = 0 || copy.fileOffset < batch.fileOffset ||
    (boundedAdd copy.fileOffset copy.bytes).all (stop < ·) ||
    (boundedAdd copy.device copy.bytes).isNone

def IoBatch.validate : Planned Unit :=
  match fileEnd batch.fileOffset batch.bytes with
  | none => fail "SSD batch offset overflow"
  | some stop =>
    if batch.bytes = 0 || stagingBytes < batch.bytes || batch.bytes % alignment ≠ 0 ||
        batch.fileOffset % alignment ≠ 0 then
      fail "SSD batch exceeds aligned GPU staging"
    else if batch.copies.any (batch.exceeds stop) then
      fail "SSD batch copy exceeds its owned ranges"
    else
      .ok ()

/-! ### Reads -/

/-- The condition `append`: the copy goes on in the batch pushed last. -/
def IoBatch.append (aligned : Nat) : Planned Bool :=
  if copy.fileOffset < batch.fileOffset then
    .ok false
  else do
    let stop ← addOrPanic batch.fileOffset batch.bytes
    if stop < aligned then
      return false
    let limit ← addOrPanic batch.fileOffset stagingBytes
    return decide (copy.fileOffset < limit)

/-- The batch that takes the next bytes of a copy, and those before it, newest first. -/
def lastBatch (batches : List IoBatch) (copy : CopyRange) : Planned (IoBatch × List IoBatch) :=
  let aligned := copy.fileOffset / alignment * alignment
  let inserted : IoBatch := { fileOffset := aligned, bytes := 0, copies := [] }
  match batches with
  | [] => .ok (inserted, [])
  | batch :: older => do
      if ← batch.append copy aligned then
        return (batch, older)
      return (inserted, batch :: older)

/-- The bytes of a copy that fit a batch go into it; the second component is what is left. -/
def IoBatch.push : Planned (IoBatch × CopyRange) := do
  let offset ← subOrPanic copy.fileOffset batch.fileOffset
  let room ← subOrPanic stagingBytes offset
  let bytes := min copy.bytes room
  let reach ← addOrPanic offset bytes
  let padded ← orPanic (checkedNextMultipleOf reach alignment)
  let fileOffset ← addOrPanic copy.fileOffset bytes
  let device ← addOrPanic copy.device bytes
  let rest ← subOrPanic copy.bytes bytes
  return ({ batch with
      bytes := max batch.bytes padded
      copies := batch.copies ++ [{ copy with bytes := bytes }] },
    { fileOffset := fileOffset, device := device, bytes := rest })

/-- The `while` loop of one copy, over the batches newest first. Every round takes at least one
byte, so that the fuel `copy.bytes` suffices. -/
def planCopy : (fuel : Nat) → List IoBatch → CopyRange → Planned (List IoBatch)
  | 0, batches, _ => .ok batches
  | fuel + 1, batches, copy =>
    if copy.bytes = 0 then
      .ok batches
    else do
      let (batch, older) ← lastBatch batches copy
      let (batch, rest) ← batch.push copy
      planCopy fuel (batch :: older) rest

def planRead (batches : List IoBatch) (copy : CopyRange) : Planned (List IoBatch) :=
  match fileEnd copy.fileOffset copy.bytes with
  | none => fail "SSD read offset overflow"
  | some _ =>
    match boundedAdd copy.device copy.bytes with
    | none => fail "GPU destination overflow"
    | some _ => planCopy copy.bytes batches copy

/-- `sort_unstable_by_key` on the file offset: some sorted order of the copies. -/
structure OffsetSort where
  sort : List CopyRange → List CopyRange
  perm : ∀ copies, (sort copies).Perm copies
  sorted : ∀ copies, (sort copies).Pairwise (·.fileOffset ≤ ·.fileOffset)

def planReads (sorting : OffsetSort) (copies : List CopyRange) : Planned (List IoBatch) := do
  let batches ← (sorting.sort copies).foldlM planRead []
  return batches.reverse

/-! ### Writes -/

def CopyRange.outside (start stop : Nat) : Bool :=
  copy.fileOffset < start || (boundedAdd copy.fileOffset copy.bytes).all (stop < ·) ||
    (boundedAdd copy.device copy.bytes).isNone

def CopyRange.piece (start limit : Nat) : Planned (Option CopyRange) := do
  let stop ← addOrPanic copy.fileOffset copy.bytes
  let begin := max copy.fileOffset start
  let finish := min stop limit
  if begin < finish then
    let shift ← subOrPanic begin copy.fileOffset
    let device ← addOrPanic copy.device shift
    return some { fileOffset := begin, device := device, bytes := finish - begin }
  return none

/-- The `while` loop; every round moves `start` on, so that the fuel `stop - start` suffices. -/
def planChunks (copies : List CopyRange) (stop : Nat) :
    (fuel : Nat) → (start : Nat) → Planned (List IoBatch)
  | 0, _ => .ok []
  | fuel + 1, start =>
    if stop ≤ start then
      .ok []
    else do
      let reach ← addOrPanic start stagingBytes
      let limit := min stop reach
      let pieces ← copies.mapM fun copy => copy.piece start limit
      let batches ← planChunks copies stop fuel limit
      return { fileOffset := start, bytes := limit - start, copies := pieces.filterMap id } ::
        batches

def planWrites (fileOffset bytes : Nat) (copies : List CopyRange) : Planned (List IoBatch) :=
  match fileEnd fileOffset bytes with
  | none => fail "SSD write offset overflow"
  | some stop =>
    if fileOffset % alignment ≠ 0 || bytes % alignment ≠ 0 || bytes = 0 then
      fail "SSD writes require an aligned, nonempty reservation"
    else if copies.any (·.outside fileOffset stop) then
      fail "GPU write range exceeds its reservation"
    else
      planChunks copies stop bytes fileOffset

/-! ### Slots -/

section Slots

variable {β : Type}

/-- Where the copies of a write come from and go to in the staging buffer. -/
def IoBatch.gather (batch : IoBatch) : List Move :=
  batch.copies.map fun copy =>
    { source := copy.device, target := copy.fileOffset - batch.fileOffset, bytes := copy.bytes }

/-- Where the copies of a read come from in the staging buffer and go to. -/
def IoBatch.scatter (batch : IoBatch) : List Move :=
  batch.copies.map fun copy =>
    { source := copy.fileOffset - batch.fileOffset, target := copy.device, bytes := copy.bytes }

structure Written (β : Type) where
  staging : Nat → β
  file : Nat → β

/-- A completed `submit` of a write: clear the staging buffer, gather the copies, write it. -/
def submitWrite (zero : β) (memory : Nat → β) (slot : Written β) (batch : IoBatch) :
    Planned (Written β) := do
  batch.validate
  let cleared := Move.apply (fun _ => zero) slot.staging ⟨0, 0, batch.bytes⟩
  let gathered := moveAll memory batch.gather cleared
  return {
    staging := gathered
    file := Move.apply gathered slot.file ⟨0, batch.fileOffset, batch.bytes⟩ }

/-- What a batch reads: the staging buffer of the slot and the GPU memory. -/
structure Restored (β : Type) where
  staging : Nat → β
  memory : Nat → β

/-- A completed `submit` of a read: fill the staging buffer from the file, scatter the copies. -/
def submitRead (file : Nat → β) (slot : Restored β) (batch : IoBatch) : Planned (Restored β) := do
  batch.validate
  let filled := Move.apply file slot.staging ⟨batch.fileOffset, 0, batch.bytes⟩
  return {
    staging := filled
    memory := moveAll filled batch.scatter slot.memory }

def runWrites (zero : β) (memory : Nat → β) (batches : List IoBatch) (slot : Written β) :
    Planned (Written β) :=
  batches.foldlM (submitWrite zero memory) slot

def runReads (file : Nat → β) (batches : List IoBatch) (slot : Restored β) : Planned (Restored β) :=
  batches.foldlM (submitRead file) slot

end Slots

end OrbitKV
