import OrbitKV.Lib.Word
import OrbitKV.State.Record

/-!
# The residency inventory

Every method is one critical section, except that `coalesced_changes_scoped` locks again to count
what the scope filtered, which nothing else reads. The clock, the wake-up channels and the counters
of emitted frames are left out.
-/

namespace OrbitKV

open Std

structure Inventory where
  residents : RecordMap
  journal : List InventoryRecord
  sequence : Nat
  journalBytes : Nat
  journalBytesPeak : Nat
  byteLimit : Nat
  historyGaps : Nat
  scopeFilterInputRecords : Nat
  scopeFilterOutputRecords : Nat

def Inventory.new (byteLimit : Nat) : Inventory where
  residents := ∅
  journal := []
  sequence := 0
  journalBytes := 0
  journalBytesPeak := 0
  byteLimit := byteLimit
  historyGaps := 0
  scopeFilterInputRecords := 0
  scopeFilterOutputRecords := 0

/-- What stops a call of `change`: one of its two assertions, or `expect("inventory sequence
exhausted")`. -/
inductive ChangePanic where
  | mediumNotStored
  | mediumMismatch
  | sequenceExhausted
  deriving DecidableEq, Repr

/-- The loop that drops the oldest records until the journal fits its byte limit. -/
def trimJournal (byteLimit : Nat) : List InventoryRecord → Nat → List InventoryRecord × Nat
  | [], bytes => ([], bytes)
  | record :: rest, bytes =>
    if byteLimit < bytes then
      trimJournal byteLimit rest (bytes - record.estimatedSize)
    else
      (record :: rest, bytes)

variable (state : Inventory)

/-- The record `change` writes when the metadata of a residence goes from `old` to `metadata`. -/
def Inventory.nextRecord (key : StateKey) (old metadata : Option ReplicaMetadata) :
    InventoryRecord where
  key := key
  sequence := state.sequence + 1
  present := metadata.isSome
  metadata := metadata.or old

/-- The part of `change` that takes effect: the residents, the sequence and the trimmed journal. -/
def Inventory.append (identity : Residence) (record : InventoryRecord) : Inventory :=
  let trimmed := trimJournal state.byteLimit (state.journal ++ [record])
    (state.journalBytes + record.estimatedSize)
  { state with
    residents :=
      if record.present then state.residents.insert identity record
      else state.residents.erase identity
    journal := trimmed.1
    sequence := record.sequence
    journalBytes := trimmed.2
    journalBytesPeak := max state.journalBytesPeak trimmed.2 }

def Inventory.residentMetadata (identity : Residence) : Option ReplicaMetadata :=
  state.residents[identity]?.bind (·.metadata)

def Inventory.change (key : StateKey) (medium : ReplicaMedium) (metadata : Option ReplicaMetadata) :
    Except ChangePanic Inventory :=
  if !medium.isStored then
    .error .mediumNotStored
  else if metadata.any (·.medium ≠ medium) then
    .error .mediumMismatch
  else
    let old := state.residentMetadata (key, medium)
    if old = metadata then
      .ok state
    else if state.sequence + 1 < u64Bound then
      .ok (state.append (key, medium) (state.nextRecord key old metadata))
    else
      .error .sequenceExhausted

inductive InventoryReadError where
  | historyGap
  | recordTooLarge
  | invalidRecord
  deriving DecidableEq, Repr

structure InventoryPage where
  records : List InventoryRecord
  next : Option Residence
  complete : Bool

/-- The scan of `scoped_page` over the residents after the cursor, and the number of residents it
has looked at. -/
def scanPage (scope : InventoryScope) :
    (source : List (Residence × InventoryRecord)) → (scanned scannedBytes : Nat) →
      (records : List InventoryRecord) → (next : Option Residence) →
      Except InventoryReadError (InventoryPage × Nat)
  | [], scanned, _, records, next => .ok (⟨records, next, true⟩, scanned)
  | (identity, record) :: source, scanned, scannedBytes, records, next =>
    let bytes := record.estimatedSize
    if scanned = inventoryBatchRecords ∨
        0 < scanned ∧ inventoryBatchBytes < scannedBytes + bytes then
      .ok (⟨records, next, false⟩, scanned)
    else if scanned = 0 ∧ inventoryBatchBytes < bytes then
      .error .recordTooLarge
    else
      scanPage scope source (scanned + 1) (scannedBytes + bytes)
        (if scope.contains record.key.ns then records ++ [record] else records) (some identity)

/-- `BTreeMap::range((after.map_or(Unbounded, Excluded), Unbounded))`. -/
def Inventory.residentsAfter (after : Option Residence) : List (Residence × InventoryRecord) :=
  state.residents.toList.filter fun entry => after.all fun cursor => compare cursor entry.1 = .lt

def Inventory.countFiltered (input output : Nat) : Inventory :=
  { state with
    scopeFilterInputRecords := saturatingAdd state.scopeFilterInputRecords input
    scopeFilterOutputRecords := saturatingAdd state.scopeFilterOutputRecords output }

def Inventory.scopedPage (after : Option Residence) (scope : InventoryScope) :
    Except InventoryReadError InventoryPage × Inventory :=
  match scanPage scope (state.residentsAfter after) 0 0 [] none with
  | .error error => (.error error, state)
  | .ok (page, scanned) => (.ok page, state.countFiltered scanned page.records.length)

/-- `bounded_records`, with the records and bytes taken so far. -/
def boundedRecords : (source : List InventoryRecord) → (result : List InventoryRecord) →
    (bytes : Nat) → Except InventoryReadError (List InventoryRecord)
  | [], result, _ => .ok result
  | record :: source, result, bytes =>
    let size := record.estimatedSize
    if inventoryBatchBytes < size then
      .error .recordTooLarge
    else if result.length = inventoryBatchRecords ∨ inventoryBatchBytes < bytes + size then
      .ok result
    else
      boundedRecords source (result ++ [record]) (bytes + size)

/-- The condition under which `changes` reports a gap: the interval is not one of this history, or
its first change is no longer in the journal. -/
def Inventory.hasGap (after through : Nat) : Bool :=
  through < after || state.sequence < through ||
    (after ≠ state.sequence && state.journal.head?.all fun record => after + 1 < record.sequence)

def Inventory.changes (after through : Nat) :
    Except InventoryReadError (List InventoryRecord) × Inventory :=
  if state.hasGap after through then
    (.error .historyGap, { state with historyGaps := saturatingAdd state.historyGaps 1 })
  else if after = through then
    (.ok [], state)
  else
    match state.journal.head? with
    | none => (.error .historyGap, state)
    | some front =>
      let start := after + 1 - front.sequence
      let stop := through - front.sequence + 1
      (boundedRecords ((state.journal.drop start).take (stop - start)) [] 0, state)

structure InventoryDelta where
  through : Nat
  records : List InventoryRecord
  inputRecords : Nat
  inputBytes : Nat

/-- The loop of `coalesced_changes_scoped`: the last in-scope record of each residence wins. -/
def coalesce (scope : InventoryScope) :
    List InventoryRecord → RecordMap →
      Except InventoryReadError RecordMap
  | [], records => .ok records
  | record :: input, records =>
    match record.metadata with
    | none => .error .invalidRecord
    | some metadata =>
      coalesce scope input
        (if scope.contains record.key.ns then
          records.insert (record.key, metadata.medium) record
        else records)

def Inventory.coalescedChangesScoped (after through : Nat) (scope : InventoryScope) :
    Except InventoryReadError InventoryDelta × Inventory :=
  match state.changes after through with
  | (.error error, state) => (.error error, state)
  | (.ok input, state) =>
    match coalesce scope input ∅ with
    | .error error => (.error error, state)
    | .ok records =>
      (.ok
        { through := (input.getLast?.map (·.sequence)).getD after
          records := records.toList.map (·.2)
          inputRecords := input.length
          inputBytes := (input.map (·.estimatedSize)).sum },
        state.countFiltered input.length records.size)

def Inventory.containsRecord (record : InventoryRecord) (medium : ReplicaMedium) : Bool :=
  record.present &&
    state.residents[(record.key, medium)]?.any fun resident => resident.sequence = record.sequence

end OrbitKV
