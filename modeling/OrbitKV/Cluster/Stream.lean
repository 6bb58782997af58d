import OrbitKV.Catalog.Index

/-!
# The inventory stream

`serve_source` and `receive_frames`. Every critical section of the inventory is a step of its own,
and the frames in flight are a queue. Flow control, pacing and acknowledgements only delay or stop a
session, which any step may be followed by.
-/

namespace OrbitKV

open Std

/-- The body of an `InventoryServerFrame`. Conversion of the records to the wire and back is the
identity. -/
inductive Frame where
  | snapshotBegin (snapshotId viewId : Uuid) (startSequence : Nat)
  | snapshotPage (snapshotId : Uuid) (pageNumber : Nat) (records : List InventoryRecord)
  | delta (fromExclusive throughInclusive : Nat) (records : List InventoryRecord)
  | snapshotCommit (snapshotId viewId : Uuid) (throughSequence : Nat)
      (transcriptDigest : List UInt8) (pageCount : Nat)
  | progress (throughSequence sourceHeadSequence : Nat)
  | resetRequired (reason : String)
  deriving DecidableEq, Repr

/-- What the protocol observes of the encoding: the length of a body, the length of the message that
carries it, and the digest of a transcript. -/
structure Wire where
  encodedLen : Frame → Nat
  messageLen : Frame → Nat
  transcriptDigest : List Frame → List UInt8

def frameBytes : Nat := 512 * 1024

def messageBytes : Nat := 1024 * 1024

/-! ### The source -/

/-- How one iteration of `bounded_delta` ends. -/
inductive DeltaAttempt where
  | retry (limit : Nat)
  | done (delta : InventoryDelta)
  | failed (error : InventoryReadError)

/-- One iteration of the loop of `bounded_delta`, for a limit on the length of a frame. -/
def boundedDeltaAttempt (frameLimit : Nat) (wire : Wire) (inventory : Inventory)
    (after limit : Nat) (scope : InventoryScope) : DeltaAttempt × Inventory :=
  match inventory.coalescedChangesScoped after limit scope with
  | (.error error, inventory) =>
    if error = .recordTooLarge ∧ after + 1 < limit then
      (.retry (after + (limit - after) / 2), inventory)
    else
      (.failed error, inventory)
  | (.ok delta, inventory) =>
    if wire.encodedLen (.delta after delta.through delta.records) ≤ frameLimit then
      (.done delta, inventory)
    else if delta.inputRecords ≤ 1 then
      (.failed .recordTooLarge, inventory)
    else
      (.retry (after + (delta.through - after) / 2), inventory)

variable (wire : Wire) (index : GlobalIndex) (source : Uuid)

def boundedDeltaStep (inventory : Inventory) (after limit : Nat) (scope : InventoryScope) :
    DeltaAttempt × Inventory :=
  boundedDeltaAttempt frameBytes wire inventory after limit scope

/-- The local variables of `serve_snapshot` that outlive its loops. -/
structure Snapshot where
  snapshotId : Uuid
  viewId : Uuid
  start : Nat
  pageNumber : Nat
  transcript : List Frame

/-- Where `serve_source` is. `limit` is the variable of the current `bounded_delta`. -/
inductive Phase where
  | opening (resume : Option (Nat × Uuid))
  | resuming (sequence : Nat)
  | checking (sequence head : Nat)
  | beginning
  | paging (snapshot : Snapshot) (cursor : Option Residence)
  | scanned (snapshot : Snapshot)
  | replaying (snapshot : Snapshot) (stop after limit : Nat)
  | streaming (after : Nat)
  | idle (after : Nat)
  | waiting (after : Nat)
  | publishing (after limit : Nat)
  | stopped

/-- `FrameSender::frame` and `send`: a message that is too long stops the session. -/
def send (frame : Frame) (next : Phase) : Phase × List Frame :=
  if wire.messageLen frame ≤ messageBytes then (next, [frame]) else (.stopped, [])

def afterPage (snapshot : Snapshot) (page : InventoryPage) : Phase :=
  if page.complete then .scanned snapshot else .paging snapshot page.next

def pageStep (snapshot : Snapshot) (page : InventoryPage) : Phase × List Frame :=
  if page.records = [] then
    (afterPage snapshot page, [])
  else
    let frame := .snapshotPage snapshot.snapshotId snapshot.pageNumber page.records
    if frameBytes < wire.encodedLen frame then
      (.stopped, [])
    else
      send wire frame (afterPage { snapshot with
        pageNumber := snapshot.pageNumber + 1
        transcript := snapshot.transcript ++ [frame] } page)

/-- What follows an iteration of `bounded_delta`, in the replay or in the stream. -/
def deltaStep (after : Nat) (attempt : DeltaAttempt) (retry : Nat → Phase)
    (sent : Frame → Nat → Phase) (reason : String) : Phase × List Frame :=
  match attempt with
  | .retry limit => (retry limit, [])
  | .failed .historyGap => send wire (.resetRequired reason) .stopped
  | .failed _ => (.stopped, [])
  | .done delta =>
    let frame := .delta after delta.through delta.records
    send wire frame (sent frame delta.through)

/-- One critical section of `serve_source` and the frames sent before the next. `ids` are the random
identities a new snapshot takes, and `timer` says which branch of the idle `select!` fires. -/
def sourceStep (scope : InventoryScope) (ids : Uuid × Uuid) (timer : Bool) (inventory : Inventory) :
    Phase → (Phase × List Frame) × Inventory
  | .opening (some (sequence, _)) =>
    ((if sequence ≤ inventory.sequence then .resuming sequence else .beginning, []), inventory)
  | .opening none => ((.beginning, []), inventory)
  | .resuming sequence => ((.checking sequence inventory.sequence, []), inventory)
  | .checking sequence head =>
    match inventory.coalescedChangesScoped sequence head scope with
    | (.ok _, inventory) => ((.streaming sequence, []), inventory)
    | (.error .historyGap, inventory) =>
      (send wire (.resetRequired "source journal history is unavailable") .stopped, inventory)
    | (.error _, inventory) => ((.stopped, []), inventory)
  | .beginning =>
    let frame := .snapshotBegin ids.1 ids.2 inventory.sequence
    (send wire frame (.paging ⟨ids.1, ids.2, inventory.sequence, 0, [frame]⟩ none), inventory)
  | .paging snapshot cursor =>
    match inventory.scopedPage cursor scope with
    | (.error _, inventory) => ((.stopped, []), inventory)
    | (.ok page, inventory) => (pageStep wire snapshot page, inventory)
  | .scanned snapshot =>
    ((.replaying snapshot inventory.sequence snapshot.start inventory.sequence, []), inventory)
  | .replaying snapshot stop after limit =>
    if after < stop then
      let (attempt, inventory) := boundedDeltaStep wire inventory after limit scope
      (deltaStep wire after attempt (.replaying snapshot stop after)
        (fun frame through => .replaying { snapshot with
          transcript := snapshot.transcript ++ [frame] } stop through stop)
        "source journal overflowed during snapshot", inventory)
    else
      (send wire (.snapshotCommit snapshot.snapshotId snapshot.viewId stop
        (wire.transcriptDigest snapshot.transcript) snapshot.pageNumber) (.streaming stop),
        inventory)
  | .streaming after =>
    ((if after < inventory.sequence then .waiting after else .idle after, []), inventory)
  | .idle after =>
    (if timer then send wire (.progress after inventory.sequence) (.streaming after)
      else (.streaming after, []), inventory)
  | .waiting after => ((.publishing after inventory.sequence, []), inventory)
  | .publishing after limit =>
    let (attempt, inventory) := boundedDeltaStep wire inventory after limit scope
    (deltaStep wire after attempt (.publishing after) (fun _ through => .streaming through)
      "source journal history is unavailable", inventory)
  | .stopped => ((.stopped, []), inventory)

/-! ### The receiver -/

/-- The local variables of `receive_frames`. -/
structure Receiver where
  snapshotId : Option Uuid
  transcript : Option (List Frame)

inductive Received where
  | accepted
  | committed (throughSequence : Nat)
  | applied (throughInclusive : Nat)
  | failed (error : String)
  deriving DecidableEq, Repr

def validateRecords (records : List InventoryRecord) : Except String Unit :=
  if inventoryBatchRecords < records.length then
    .error "inventory frame record count exceeds the decoded limit"
  else if frameBytes < (records.map (·.estimatedSize)).sum then
    .error "inventory frame exceeds the decoded byte limit"
  else
    .ok ()

/-- `apply_delta` of a live stream, under the view its caller has just read. -/
def receiveDelta (viewId : Uuid) (fromExclusive throughInclusive : Nat)
    (records : List InventoryRecord) (overlap : String) : Received × GlobalIndex :=
  match index.view.applyDelta index.scope index.byteLimit source viewId fromExclusive
      throughInclusive records with
  | (.error error, view) => (.failed error, { index with view := view })
  | (.ok .applied, view) => (.applied throughInclusive, { index with view := view })
  | (.ok .duplicate, view) => (.accepted, { index with view := view })
  | (.ok (.overlap _), view) => (.failed overlap, { index with view := view })

/-- The first half of the `Progress` case: progress past the watermark is an empty delta. -/
def receiveCoverage (throughSequence : Nat) : Received × GlobalIndex :=
  match index.view.ownerWatermark source with
  | some (viewId, applied) =>
    if applied < throughSequence then
      receiveDelta index source viewId applied throughSequence []
        "inventory progress overlaps the installed watermark"
    else
      (.accepted, index)
  | none => (.accepted, index)

def receiveHead (throughSequence : Nat) (received : Received) : Received × GlobalIndex :=
  match index.view.ownerWatermark source with
  | some (viewId, applied) =>
    if applied = throughSequence then
      match index.view.confirmProgress source viewId applied with
      | (.error error, view) => (.failed error, { index with view := view })
      | (.ok _, view) => (received, { index with view := view })
    else
      (received, index)
  | none => (received, index)

/-- One iteration of the loop of `receive_frames`. -/
def receive (now : Nat) (source sessionId : Uuid) (receiver : Receiver) (frame : Frame) :
    Received × Receiver × GlobalIndex :=
  match frame with
  | .snapshotBegin snapshotId viewId startSequence =>
    match index.view.beginSnapshot index.byteLimit source sessionId snapshotId viewId
        startSequence with
    | (.error error, view) => (.failed error, receiver, { index with view := view })
    | (.ok _, view) => (.accepted, ⟨some snapshotId, some [frame]⟩,
        { index with view := view.markSyncing source })
  | .snapshotPage snapshotId pageNumber records =>
    match validateRecords records with
    | .error error => (.failed error, receiver, index)
    | .ok _ =>
      if receiver.snapshotId ≠ some snapshotId then
        (.failed "snapshot page identity changed", receiver, index)
      else
        match index.view.applySnapshotPage index.scope index.byteLimit source sessionId
            snapshotId pageNumber records with
        | (.error error, view) => (.failed error, receiver, { index with view := view })
        | (.ok _, view) =>
          match receiver.transcript with
          | none => (.failed "snapshot page arrived before begin", receiver,
              { index with view := view })
          | some transcript => (.accepted,
              { receiver with transcript := some (transcript ++ [frame]) },
              { index with view := view })
  | .delta fromExclusive throughInclusive records =>
    match validateRecords records with
    | .error error => (.failed error, receiver, index)
    | .ok _ =>
      if receiver.snapshotId.isSome then
        match index.view.applySnapshotDelta index.scope index.byteLimit source sessionId
            fromExclusive throughInclusive records with
        | (.error error, view) => (.failed error, receiver, { index with view := view })
        | (.ok _, view) =>
          match receiver.transcript with
          | none => (.failed "snapshot delta arrived before begin", receiver,
              { index with view := view })
          | some transcript => (.accepted,
              { receiver with transcript := some (transcript ++ [frame]) },
              { index with view := view })
      else
        match index.view.ownerWatermark source with
        | none => (.failed "delta arrived without an installed owner view", receiver, index)
        | some (viewId, _) =>
          let (received, index) := receiveDelta index source viewId fromExclusive
            throughInclusive records "inventory delta overlaps the installed watermark"
          (received, receiver, index)
  | .snapshotCommit snapshotId viewId throughSequence transcriptDigest pageCount =>
    if receiver.snapshotId ≠ some snapshotId then
      (.failed "snapshot transcript or identity differs", receiver, index)
    else
      match receiver.transcript with
      | none => (.failed "snapshot commit arrived before begin", receiver, index)
      | some transcript =>
        if wire.transcriptDigest transcript ≠ transcriptDigest then
          (.failed "snapshot transcript or identity differs", ⟨receiver.snapshotId, none⟩, index)
        else
          match index.view.commitSnapshot (index.membership.resolve now source).isSome source
              sessionId snapshotId viewId throughSequence pageCount with
          | (.error error, view) => (.failed error, ⟨receiver.snapshotId, none⟩,
              { index with view := view })
          | (.ok _, view) => (.committed throughSequence, ⟨none, none⟩,
              { index with view := view })
  | .progress throughSequence sourceHeadSequence =>
    if receiver.snapshotId.isSome then
      (.failed "progress cannot commit a partial snapshot", receiver, index)
    else if sourceHeadSequence < throughSequence then
      (.failed "inventory source head precedes covered progress", receiver, index)
    else
      match receiveCoverage index source throughSequence with
      | (.failed error, index) => (.failed error, receiver, index)
      | (received, index) =>
        if sourceHeadSequence = throughSequence then
          let (received, index) := receiveHead index source throughSequence received
          (received, receiver, index)
        else
          (received, receiver, index)
  | .resetRequired reason =>
    (.failed ("source requested inventory reset: " ++ reason), receiver, index)

/-! ### The system -/

/-- A session: where the source is, the frames in flight and the receiver's local variables. -/
structure Session where
  sessionId : Uuid
  phase : Phase
  inFlight : List Frame
  receiver : Receiver

/-- A source inventory, the index that follows it, and the session between them, if any. `past` is
not part of the program: it lists the residents the inventory had at the sequences `0`, `1`, … up to
the present one. -/
structure Replication where
  inventory : Inventory
  past : List RecordMap
  index : GlobalIndex
  session : Option Session

def IndexCall.spares : IndexCall → Bool
  | .beginSnapshot owner .. | .applySnapshotPage owner .. | .applySnapshotDelta owner ..
  | .commitSnapshot owner .. | .applyDelta owner .. => owner ≠ source
  | .setExpectedOwners .. | .markSyncing .. | .confirmProgress .. | .abortSnapshot ..
  | .retireOwner .. | .cleanupOwner .. | .reset | .membership .. => true

inductive StreamLabel where
  | change (key : StateKey) (medium : ReplicaMedium) (metadata : Option ReplicaMetadata)
  | openSession (sessionId : Uuid) (bootstrap : Bool)
  | source (ids : Uuid × Uuid) (timer : Bool)
  | sourceStops
  | deliver (now : Nat) (received : Received)
  | close
  | call (now : Nat) (call : IndexCall)

/-- A new session resumes at the watermark or, when it must bootstrap, starts with a snapshot. -/
def Session.new (sessionId : Uuid) (bootstrap : Bool) : Session where
  sessionId := sessionId
  phase := .opening (if bootstrap then none
    else (index.view.ownerWatermark source).map fun mark => (mark.2, mark.1))
  inFlight := []
  receiver := ⟨none, none⟩

/-- One step of the system, if it can be taken. A session that fails, or whose connection is lost,
goes with its frames. The label of a delivery carries what the frame led to. -/
def Replication.next (s : Replication) :
    StreamLabel → Option Replication
  | .change key medium metadata =>
    match s.inventory.change key medium metadata with
    | .error _ => none
    | .ok inventory => some { s with
        inventory := inventory
        past := if inventory.sequence = s.inventory.sequence then s.past
          else s.past ++ [inventory.residents] }
  | .openSession sessionId bootstrap =>
    if s.session.isSome then none
    else some { s with session := some (.new s.index source sessionId bootstrap) }
  | .source ids timer =>
    s.session.map fun session =>
      let ((phase, frames), inventory) :=
        sourceStep wire s.index.scope ids timer s.inventory session.phase
      { s with
        inventory := inventory
        session := some { session with phase := phase, inFlight := session.inFlight ++ frames } }
  | .sourceStops =>
    s.session.map fun session => { s with session := some { session with phase := .stopped } }
  | .deliver now label =>
    match s.session with
    | none => none
    | some session =>
      match session.inFlight with
      | [] => none
      | frame :: frames =>
        let (received, receiver, index) :=
          receive wire s.index now source session.sessionId session.receiver frame
        if received = label then
          some { s with
            index := index
            session := match received with
              | .failed _ => none
              | _ => some { session with inFlight := frames, receiver := receiver } }
        else none
  | .close => some { s with session := none }
  | .call now call =>
    if call.spares source then some { s with index := s.index.call now call } else none

def streamMachine : Machine Replication StreamLabel :=
  .ofNext (fun s => (∃ byteLimit, s.inventory = .new byteLimit) ∧ s.past = [∅] ∧
    s.index.view = .empty ∧ s.session = none) (Replication.next wire source)

end OrbitKV
