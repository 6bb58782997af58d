import OrbitKV.Lib.Lru
import OrbitKV.Lib.Machine
import OrbitKV.Storage.SsdIndex

/-!
# The SSD store

A method that takes the lock once is one step; what it does after is a step of its own: the
decrement of a reader count and every call of `ResidencyInventory::change`.

The blocks of the writer task move on independently; the order of its queue only restricts that.
What the code asks of its surroundings is an argument. Costs, metrics and diagnostics are left out.
-/

namespace OrbitKV

open Std

open LruMap (entries touch contains oldest remove)

variable {n : Nat} {L : Type → Type} [LruMap StateKey L]

/-! ### Sections of the lock -/

inductive SsdWritePolicy where
  | all
  | reuse
  deriving DecidableEq, Repr

inductive AdmissionSkip where
  | resident
  | pending
  | cold
  deriving DecidableEq, Repr

structure SsdInner (n : Nat) (L : Type → Type) where
  ring : SsdRingBuffer n
  pendingWrites : ExtTreeSet StateKey
  reuseHistory : L Unit

def reuseHistoryBlocks : Nat := 16384

/-- `LruCache::insert` for a cache of that capacity. -/
def insertHistory (history : L Unit) (key : StateKey) : L Unit :=
  let history := LruMap.insert history key ()
  if reuseHistoryBlocks < (entries history).length then
    (oldest history).elim history fun entry => remove history entry.1
  else
    history

namespace SsdInner

def admissionSkip (inner : SsdInner n L) (key : StateKey) (reused : Bool)
    (policy : SsdWritePolicy) : Option AdmissionSkip × SsdInner n L :=
  if (inner.ring.get key).isSome then
    (some .resident, inner)
  else if inner.pendingWrites.contains key then
    (some .pending, inner)
  else if policy = .reuse then
    let seen := contains inner.reuseHistory key
    let history := insertHistory (touch inner.reuseHistory key) key
    (if !reused && !seen then some .cold else none, { inner with reuseHistory := history })
  else
    (none, inner)

/-- The loop of `ingest_batch` over the offered blocks; `seen` is `seen_batch`. -/
def admitBlocks (policy : SsdWritePolicy) (reused : Bool) :
    List (StateKey × SealedBlock) → List StateKey → SsdInner n L →
    List (StateKey × SealedBlock) × SsdInner n L
  | [], _, inner => ([], inner)
  | (key, block) :: blocks, seen, inner =>
    if key ∈ seen then admitBlocks policy reused blocks seen inner
    else
      match inner.admissionSkip key reused policy with
      | (some _, inner) => admitBlocks policy reused blocks (key :: seen) inner
      | (none, inner) =>
        let (admitted, inner) := admitBlocks policy reused blocks (key :: seen) inner
        ((key, block) :: admitted, inner)

/-- The blocks sent to the writer; `permit` is the answer of the queue. -/
def ingestBatch (inner : SsdInner n L) (policy : SsdWritePolicy)
    (blocks : List (StateKey × SealedBlock)) (reused permit : Bool) :
    List (StateKey × SealedBlock) × SsdInner n L :=
  if reused && policy = .all then ([], inner)
  else
    let (admitted, inner) := admitBlocks policy reused blocks [] inner
    if permit then
      (admitted, { inner with
        pendingWrites := admitted.foldl (fun pending item => pending.insert item.1)
          inner.pendingWrites })
    else
      ([], inner)

def slotMetas (block : SealedBlock) : List SlotMeta :=
  block.slots.map fun slot =>
    { SlotMeta.new (slot.segments.map (·.size)) with encoding := slot.encoding }

def encodingOf (slots : List SlotMeta) : Encoding :=
  if slots.any (·.encoding.isSome) then .encoded else .raw

/-- The lock section of `execute_write`: the reserved entry and the retired keys. -/
def executeWrite [NeZero n] (readers : Nat → Nat) (cell : Nat) (inner : SsdInner n L)
    (key : StateKey) (block : SealedBlock) :
    Option (SsdIndexEntry n) × List StateKey × SsdInner n L :=
  let slots := slotMetas block
  match inner.ring.reserve readers cell key slots (encodingOf slots) with
  | none =>
    let (retired, ring) := inner.ring.takeRetired
    (none, retired, { inner with ring := ring })
  | some (entry, ring) =>
    let (retired, ring) := ring.takeRetired
    (some entry, retired, { inner with ring := ring })

/-- The lock section of `reserve_gpu`, which starts only if direct writes are enabled. -/
def reserveGpu [NeZero n] (readers : Nat → Nat) (cell : Nat) (inner : SsdInner n L)
    (policy : SsdWritePolicy) (key : StateKey) (slots : List SlotMeta) :
    Option (SsdIndexEntry n × List StateKey) × SsdInner n L :=
  if policy = .reuse && !contains inner.reuseHistory key then (none, inner)
  else
    match inner.admissionSkip key false policy with
    | (some _, inner) => (none, inner)
    | (none, inner) =>
      match inner.ring.reserve readers cell key slots (encodingOf slots) with
      | none => (none, inner)
      | some (entry, ring) =>
        let (retired, ring) := ring.takeRetired
        (some (entry, retired),
          { inner with ring := ring, pendingWrites := inner.pendingWrites.insert key })

/-- The lock section of `commit_write`: the metadata to advertise and the retired keys. -/
def commitWrite (inner : SsdInner n L) (key : StateKey) (success : Bool) :
    Option ReplicaMetadata × List StateKey × SsdInner n L :=
  let (committed, ring) := inner.ring.commit key success
  let metadata := if committed then (ring.get key).map SsdIndexEntry.replicaMetadata else none
  let (retired, ring) := ring.takeRetired
  (metadata, retired,
    { inner with ring := ring, pendingWrites := inner.pendingWrites.erase key })

end SsdInner

/-! ### The system -/

structure SsdReadLease (n : Nat) where
  key : StateKey
  entry : SsdIndexEntry n
  deriving DecidableEq, Repr

/-- A write on its way: a block in the writer's queue or taken from it, a reservation whose I/O is
running, a reservation that failed, or a write lease of the GPU path. -/
inductive WriteJob (n : Nat) where
  | queued (key : StateKey) (block : SealedBlock)
  | task (key : StateKey) (block : SealedBlock)
  | writing (key : StateKey) (entry : SsdIndexEntry n)
  | unreserved (key : StateKey)
  | gpu (key : StateKey) (entry : SsdIndexEntry n)
  deriving DecidableEq, Repr

namespace WriteJob

def key : WriteJob n → StateKey
  | .queued key _ | .task key _ | .writing key _ | .unreserved key | .gpu key _ => key

def reservation : WriteJob n → Option (SsdIndexEntry n)
  | .writing _ entry | .gpu _ entry => some entry
  | _ => none

/-- Whether the write may call `commit_write` with this outcome. -/
def mayFinish : WriteJob n → Bool → Bool
  | .writing _ _, _ | .gpu _ _, _ => true
  | .unreserved _, success => !success
  | _, _ => false

end WriteJob

/-- A call of `ResidencyInventory::change` for the SSD medium. -/
structure Notice where
  key : StateKey
  metadata : Option ReplicaMetadata
  deriving DecidableEq, Repr

/-- What has happened to the entries. The log is no part of the program. -/
inductive SsdEvent (n : Nat) where
  | reserved (key : StateKey) (entry : SsdIndexEntry n)
  | wrote (key : StateKey) (entry : SsdIndexEntry n) (success : Bool)
  | pinned (key : StateKey) (entry : SsdIndexEntry n)
  | invalidated (key : StateKey) (entry : SsdIndexEntry n)
  deriving DecidableEq, Repr

structure SsdSystem (n : Nat) (L : Type → Type) where
  inner : SsdInner n L
  writePolicy : SsdWritePolicy
  inventory : Option Inventory
  /-- The reader counts, by cell, and the number of cells allocated. -/
  readers : Nat → Nat
  cells : Nat
  jobs : List (WriteJob n)
  leases : List (SsdReadLease n)
  /-- Leases whose drop has brought a reader count to zero and has yet to take the lock. -/
  releases : List (SsdReadLease n)
  /-- For each operation that has left the lock, the notifications it has still to send. -/
  inFlight : List (List Notice)
  log : List (SsdEvent n)

inductive SsdStep (n : Nat) where
  | ingestBatch (blocks : List (StateKey × SealedBlock)) (reused permit : Bool)
  | dequeue (job : Nat) (live : Bool)
  | executeWrite (job : Nat)
  | commitWrite (job : Nat) (success : Bool)
  | reserveGpu (key : StateKey) (slots : List SlotMeta) (available : Bool)
  | pin (candidate : SsdReadLease n)
  | pinResidencies (records : List InventoryRecord) (validated : Bool)
  | dropLease (lease : Nat)
  | releaseInvalid (release : Nat)
  | invalidateEncodedEntry (failed : SsdReadLease n)
  | notify (operation : Nat)
  | changeDram (key : StateKey) (metadata : Option ReplicaMetadata)

namespace SsdSystem

def withRing (s : SsdSystem n L) (ring : SsdRingBuffer n) : SsdSystem n L :=
  { s with inner := { s.inner with ring := ring } }

def leave (s : SsdSystem n L) (notices : List Notice) : SsdSystem n L :=
  if notices.isEmpty then s else { s with inFlight := s.inFlight ++ [notices] }

def retireNotices (retired : List StateKey) : List Notice :=
  retired.map fun key => ⟨key, none⟩

def advertiseNotices (key : StateKey) (metadata : Option ReplicaMetadata) : List Notice :=
  if metadata.isSome then [⟨key, metadata⟩] else []

def startEntry (s : SsdSystem n L) (key : StateKey) (entry : SsdIndexEntry n) : SsdSystem n L :=
  { s with
    readers := Function.update s.readers s.cells 0
    cells := s.cells + 1
    log := s.log ++ [.reserved key entry] }

def acquire (s : SsdSystem n L) (lease : SsdReadLease n) : SsdSystem n L :=
  let cell := lease.entry.readers
  { s with
    readers := Function.update s.readers cell (s.readers cell + 1)
    leases := s.leases ++ [lease]
    log := s.log ++ [.pinned lease.key lease.entry] }

def pin (s : SsdSystem n L) (candidate : SsdReadLease n) : SsdSystem n L :=
  match s.inner.ring.get candidate.key with
  | none => s
  | some entry =>
    if entry.readers = candidate.entry.readers then s.acquire ⟨candidate.key, entry⟩ else s

def pinResidencies (s : SsdSystem n L) (records : List InventoryRecord) (validated : Bool) :
    SsdSystem n L :=
  if records.isEmpty || !validated then s
  else
    match records.mapM fun record => (s.inner.ring.get record.key).map (SsdReadLease.mk record.key)
    with
    | none => s
    | some leases => leases.foldl acquire s

/-- `Drop for SsdReadLease`, up to the lock. -/
def dropLease (s : SsdSystem n L) (position : Nat) (lease : SsdReadLease n) : SsdSystem n L :=
  let cell := lease.entry.readers
  { s with
    readers := Function.update s.readers cell (s.readers cell - 1)
    leases := s.leases.eraseIdx position
    releases := if s.readers cell = 1 then s.releases ++ [lease] else s.releases }

def invalidateEncodedEntry (s : SsdSystem n L) (failed : SsdReadLease n) : SsdSystem n L :=
  let (invalidated, ring) :=
    SsdRingBuffer.invalidateEncoded s.readers s.inner.ring failed.key failed.entry
  let log :=
    if failed.entry.encoding = .encoded then s.log ++ [.invalidated failed.key failed.entry]
    else s.log
  { s.withRing ring with log := log }.leave (if invalidated then [⟨failed.key, none⟩] else [])

def change (s : SsdSystem n L) (key : StateKey) (medium : ReplicaMedium)
    (metadata : Option ReplicaMetadata) : Option (SsdSystem n L) :=
  match s.inventory with
  | none => some s
  | some inventory =>
    (inventory.change key medium metadata).toOption.map fun inventory =>
      { s with inventory := some inventory }

variable [NeZero n]

/-- One step; a label that names no job, lease or operation, or a call that panics, leads nowhere. -/
def next (s : SsdSystem n L) : SsdStep n → Option (SsdSystem n L)
  | .ingestBatch blocks reused permit =>
    let (sent, inner) := s.inner.ingestBatch s.writePolicy blocks reused permit
    some { s with
      inner := inner
      jobs := s.jobs ++ sent.map fun item => .queued item.1 item.2 }
  | .dequeue job live =>
    match s.jobs[job]? with
    | some (.queued key block) =>
      if live then
        some { s with jobs := s.jobs.set job (.task key block) }
      else
        some { s with
          inner := { s.inner with pendingWrites := s.inner.pendingWrites.erase key }
          jobs := s.jobs.eraseIdx job }
    | _ => none
  | .executeWrite job =>
    match s.jobs[job]? with
    | some (.task key block) =>
      match s.inner.executeWrite s.readers s.cells key block with
      | (some entry, retired, inner) =>
        some ({ s with inner := inner, jobs := s.jobs.set job (.writing key entry) }.startEntry
          key entry |>.leave (retireNotices retired))
      | (none, retired, inner) =>
        some ({ s with inner := inner, jobs := s.jobs.set job (.unreserved key) }.leave
          (retireNotices retired))
    | _ => none
  | .commitWrite job success =>
    match s.jobs[job]? with
    | some write =>
      if write.mayFinish success then
        let (metadata, retired, inner) := s.inner.commitWrite write.key success
        let log := s.log ++ (write.reservation.map (.wrote write.key · success)).toList
        some ({ s with inner := inner, jobs := s.jobs.eraseIdx job, log := log }.leave
          (retireNotices retired ++ advertiseNotices write.key metadata))
      else none
    | none => none
  | .reserveGpu key slots available =>
    if available then
      match s.inner.reserveGpu s.readers s.cells s.writePolicy key slots with
      | (some (entry, retired), inner) =>
        some ({ s with inner := inner, jobs := s.jobs ++ [WriteJob.gpu key entry] }.startEntry key entry
          |>.leave (retireNotices retired))
      | (none, inner) => some { s with inner := inner }
    else some s
  | .pin candidate => some (s.pin candidate)
  | .pinResidencies records validated => some (s.pinResidencies records validated)
  | .dropLease lease => s.leases[lease]?.map (s.dropLease lease)
  | .releaseInvalid release =>
    s.releases[release]?.map fun released =>
      { s.withRing (s.inner.ring.releaseInvalid s.readers released.key released.entry) with
        releases := s.releases.eraseIdx release }
  | .invalidateEncodedEntry failed =>
    -- the entry is a clone taken from a read lease, which may have been dropped since
    if .pinned failed.key failed.entry ∈ s.log then some (s.invalidateEncodedEntry failed)
    else none
  | .notify operation =>
    match s.inFlight[operation]? with
    | some (notice :: rest) =>
      let inFlight :=
        if rest.isEmpty then s.inFlight.eraseIdx operation else s.inFlight.set operation rest
      { s with inFlight := inFlight }.change notice.key .ssd notice.metadata
    | _ => none
  | .changeDram key metadata => s.change key .dram metadata

/-- A store as it is opened, with empty rings and an inventory or none. -/
def new (shardCapacities : Fin n → Nat) (alignment : Nat) (policy : SsdWritePolicy)
    (journalBytes : Option Nat) : SsdSystem n L where
  inner := ⟨.newSharded shardCapacities alignment, ∅, LruMap.empty⟩
  writePolicy := policy
  inventory := journalBytes.map Inventory.new
  readers := fun _ => 0
  cells := 0
  jobs := []
  leases := []
  releases := []
  inFlight := []
  log := []

def IsNew (s : SsdSystem n L) : Prop :=
  ∃ shardCapacities alignment policy journalBytes,
    s = new shardCapacities alignment policy journalBytes

end SsdSystem

def ssdMachine [NeZero n] : Machine (SsdSystem n L) (SsdStep n) :=
  .ofNext SsdSystem.IsNew SsdSystem.next

end OrbitKV
