import OrbitKV.Lib.Machine
import OrbitKV.Storage.Inventory
import OrbitKV.Catalog.Membership

/-!
# The global index

The receiver of the replication streams. Every method is one critical section and returns its error
beside the view it leaves behind. Metrics and timestamps are left out; `underflow` records that the
subtraction of a counter would have gone below zero.
-/

namespace OrbitKV

open Std

def ownerAccountingBytes : Nat := 256

inductive DeltaApply where
  | applied
  | duplicate
  | overlap (appliedSequence : Nat)
  deriving DecidableEq, Repr

structure Entry where
  owner : Uuid
  sequence : Nat
  metadata : ReplicaMetadata
  deriving DecidableEq, Repr

structure OwnerView where
  viewId : Uuid
  appliedSequence : Nat
  records : RecordMap
  fresh : Bool
  retired : Bool

structure StagingView where
  sessionId : Uuid
  snapshotId : Uuid
  viewId : Uuid
  startSequence : Nat
  replaySequence : Nat
  nextPage : Nat
  replayStarted : Bool
  lastResidence : Option Residence
  maxRecordSequence : Nat
  records : RecordMap
  bytes : Nat

structure View where
  blocks : ExtTreeMap StateKey (List Entry)
  owners : ExtTreeMap Uuid OwnerView
  staging : ExtTreeMap Uuid StagingView
  expected : ExtTreeSet Uuid
  accountedBytes : Nat
  activeBytes : Nat
  stagingBytes : Nat
  membershipRevision : Option Int
  generation : Nat
  admittedOwnerViews : Nat
  freshExpectedOwnerViews : Nat
  underflow : Bool

def View.empty : View where
  blocks := ∅
  owners := ∅
  staging := ∅
  expected := ∅
  accountedBytes := 0
  activeBytes := 0
  stagingBytes := 0
  membershipRevision := none
  generation := 0
  admittedOwnerViews := 0
  freshExpectedOwnerViews := 0
  underflow := false

/-! ### Counters -/

def checkedAddSigned (value : Nat) (delta : Int) : Option Nat :=
  if 0 ≤ (value : Int) + delta then some ((value : Int) + delta).toNat else none

def View.bump (view : View) : View :=
  { view with generation := saturatingAdd view.generation 1 }

def View.releaseStagingBytes (view : View) (bytes : Nat) : View :=
  { view with
    stagingBytes := view.stagingBytes - bytes
    accountedBytes := view.accountedBytes - bytes
    underflow := view.underflow || view.stagingBytes < bytes || view.accountedBytes < bytes }

def View.releaseActiveBytes (view : View) (bytes : Nat) : View :=
  { view with
    activeBytes := view.activeBytes - bytes
    accountedBytes := view.accountedBytes - bytes
    underflow := view.underflow || view.activeBytes < bytes || view.accountedBytes < bytes }

def View.dropAdmitted (view : View) (admitted : Bool) : View :=
  { view with
    admittedOwnerViews := view.admittedOwnerViews - admitted.toNat
    underflow := view.underflow || view.admittedOwnerViews < admitted.toNat }

def View.dropFresh (view : View) (fresh : Bool) : View :=
  { view with
    freshExpectedOwnerViews := view.freshExpectedOwnerViews - fresh.toNat
    underflow := view.underflow || view.freshExpectedOwnerViews < fresh.toNat }

def View.addFresh (view : View) (fresh : Bool) : View :=
  { view with freshExpectedOwnerViews := view.freshExpectedOwnerViews + fresh.toNat }

def View.refreshCoverageCounts (view : View) : View :=
  { view with
    admittedOwnerViews := view.owners.toList.countP fun entry => !entry.2.retired
    freshExpectedOwnerViews := view.expected.toList.countP fun owner =>
      view.owners[owner]?.any fun ownerView => !ownerView.retired && ownerView.fresh }

def entryBytes (key : StateKey) : Nat :=
  320 + key.ns.utf8ByteSize + key.hash.length

/-! ### Records and the inverted map -/

/-- The residence a record is about; a record without metadata is about none. -/
def InventoryRecord.residence? (record : InventoryRecord) : Option Residence :=
  record.metadata.map fun metadata => (record.key, metadata.medium)

def validateRecord (record : InventoryRecord) : Except String Residence :=
  match record.metadata with
  | none => .error "missing residency metadata"
  | some metadata =>
    if record.sequence = 0 ∨ record.key.ns = "" ∨ record.key.hash = [] ∨
        !metadata.medium.isStored ∨ metadata.representation = .unknown then
      .error "invalid global residency record"
    else
      .ok (record.key, metadata.medium)

/-- `validate_page`: the bytes the records add and the records with their residences. -/
def validatePage (scope : InventoryScope) :
    (last : Option Residence) → List InventoryRecord →
      Except String (Nat × List (Residence × InventoryRecord))
  | _, [] => .ok (0, [])
  | last, record :: records =>
    if !scope.contains record.key.ns then
      .error "inventory record is outside the installed scope"
    else
      match validateRecord record with
      | .error error => .error error
      | .ok residence =>
        if !record.present ∨ last.any fun last => compare residence last ≠ .gt then
          .error "inventory snapshot page is unsorted or contains a deletion"
        else
          match validatePage scope (some residence) records with
          | .error error => .error error
          | .ok (bytes, updates) =>
            .ok (entryBytes record.key + bytes, (residence, record) :: updates)

/-- The first loop of `validate_delta`: the latest record of each residence. -/
def latestRecords (scope : InventoryScope) (fromExclusive throughInclusive : Nat) :
    List InventoryRecord → RecordMap →
      Except String RecordMap
  | [], latest => .ok latest
  | record :: records, latest =>
    if !scope.contains record.key.ns then
      .error "inventory record is outside the installed scope"
    else if record.sequence ≤ fromExclusive ∨ throughInclusive < record.sequence then
      .error "inventory record lies outside its covered interval"
    else
      match validateRecord record with
      | .error error => .error error
      | .ok residence =>
        if latest[residence]?.any fun previous => record.sequence < previous.sequence then
          latestRecords scope fromExclusive throughInclusive records latest
        else if latest[residence]?.any fun previous =>
            previous.sequence = record.sequence && previous ≠ record then
          .error "conflicting inventory records at one generation"
        else
          latestRecords scope fromExclusive throughInclusive records
            (latest.insert residence record)

/-- The second loop of `validate_delta`: the bytes the updates add or free. -/
def deltaBytes (current : RecordMap) :
    List (Residence × InventoryRecord) → Except String Int
  | [] => .ok 0
  | (residence, record) :: latest =>
    match current[residence]? with
    | some previous =>
      if record.sequence < previous.sequence then
        deltaBytes current latest
      else if previous.sequence = record.sequence ∧ previous ≠ record then
        .error "conflicting inventory generation"
      else if !record.present then
        (deltaBytes current latest).map (· - entryBytes record.key)
      else
        deltaBytes current latest
    | none =>
      if record.present then
        (deltaBytes current latest).map (· + entryBytes record.key)
      else
        deltaBytes current latest

def validateDelta (current : RecordMap)
    (fromExclusive throughInclusive : Nat) (records : List InventoryRecord)
    (scope : InventoryScope) : Except String (Int × List (Residence × InventoryRecord)) :=
  if throughInclusive ≤ fromExclusive then
    .error "inventory delta interval is empty or reversed"
  else
    match latestRecords scope fromExclusive throughInclusive records ∅ with
    | .error error => .error error
    | .ok latest => (deltaBytes current latest.toList).map fun delta => (delta, latest.toList)

/-- The body of the loop of `apply_records`. -/
def applyRecord (records : RecordMap) (update : Residence × InventoryRecord) : RecordMap :=
  if records[update.1]?.any fun previous => update.2.sequence < previous.sequence then
    records
  else if update.2.present then
    records.insert update.1 update.2
  else
    records.erase update.1

def applyRecords (records : RecordMap) (updates : List (Residence × InventoryRecord)) : RecordMap :=
  updates.foldl applyRecord records

/-- `insert_block`. A record that is present has metadata: `expect("validated record metadata")`. -/
def insertBlock (blocks : ExtTreeMap StateKey (List Entry)) (owner : Uuid)
    (record : InventoryRecord) : ExtTreeMap StateKey (List Entry) :=
  if !record.present then
    blocks
  else
    match record.metadata with
    | none => blocks
    | some metadata =>
      blocks.insert record.key
        ((blocks[record.key]?.getD []) ++ [⟨owner, record.sequence, metadata⟩])

def removeBlock (blocks : ExtTreeMap StateKey (List Entry)) (owner : Uuid)
    (residence : Residence) : ExtTreeMap StateKey (List Entry) :=
  match blocks[residence.1]? with
  | none => blocks
  | some entries =>
    let entries := entries.filter fun entry =>
      !(entry.owner = owner && entry.metadata.medium = residence.2)
    if entries.isEmpty then blocks.erase residence.1 else blocks.insert residence.1 entries

def View.removeActiveOwner (view : View) (owner : Uuid) : View :=
  match view.owners[owner]? with
  | none => view
  | some previous =>
    let bytes := ownerAccountingBytes + (previous.records.keys.map fun r => entryBytes r.1).sum
    let counted := ((view.dropAdmitted (!previous.retired)).dropFresh
      (!previous.retired && previous.fresh && view.expected.contains owner))
    { counted with
      owners := view.owners.erase owner
      blocks := previous.records.keys.foldl (removeBlock · owner) view.blocks
      }.releaseActiveBytes bytes

/-! ### Methods -/

/-- `GlobalIndex` apart from its lock metrics. -/
structure GlobalIndex where
  membership : MembershipView
  scope : InventoryScope
  byteLimit : Nat
  view : View

def GlobalIndex.new (membership : MembershipView) (byteLimit : Nat) (scope : InventoryScope) :
    GlobalIndex :=
  ⟨membership, scope, byteLimit, .empty⟩

namespace View

/-- `view.owners` with the views of owners that are not expected retired. -/
def retireUnexpected (owners : ExtTreeMap Uuid OwnerView) (expected : ExtTreeSet Uuid) :
    ExtTreeMap Uuid OwnerView :=
  owners.map fun owner ownerView =>
    if expected.contains owner then ownerView
    else { ownerView with retired := true, fresh := false }

variable (view : View) (owner : Uuid)

def dropStaging (retired : Uuid × StagingView) : View :=
  { view with staging := view.staging.erase retired.1 }.releaseStagingBytes retired.2.bytes

/-- The loop of `set_expected_owners` over the staging of owners that are not expected. -/
def dropUnexpected (expected : ExtTreeSet Uuid) : View :=
  (view.staging.toList.filter fun entry => !expected.contains entry.1).foldl dropStaging view

def setExpectedOwners (localOwner : Uuid) (revision : Int) (owners : List Uuid) : View :=
  let expected := ExtTreeSet.ofList (owners.filter (· ≠ localOwner))
  if view.membershipRevision.any (revision < ·) then
    view
  else
    let retired := { view with owners := retireUnexpected view.owners expected }
    { retired.dropUnexpected expected with
      expected := expected
      membershipRevision := some revision }.refreshCoverageCounts.bump

/-- The update shared by `mark_syncing` and `begin_snapshot`: an installed view goes stale. -/
def clearFresh : View :=
  match view.owners[owner]? with
  | none => view
  | some ownerView =>
    { view with owners := view.owners.insert owner { ownerView with fresh := false } }.dropFresh
      (ownerView.fresh && !ownerView.retired && view.expected.contains owner)

def markSyncing : View :=
  (view.clearFresh owner).bump

def confirmProgress (viewId : Uuid) (appliedSequence : Nat) : Except String Unit × View :=
  match view.owners[owner]? with
  | none => (.error "owner view is not installed", view)
  | some ownerView =>
    if ownerView.retired ∨ ownerView.viewId ≠ viewId ∨
        ownerView.appliedSequence ≠ appliedSequence then
      (.error "owner progress does not match the installed view", view)
    else
      (.ok (), ({ view with
          owners := view.owners.insert owner { ownerView with fresh := true } }.addFresh
        (!ownerView.fresh && view.expected.contains owner)).bump)

def freshStaging (sessionId snapshotId viewId : Uuid) (startSequence : Nat) : StagingView where
  sessionId := sessionId
  snapshotId := snapshotId
  viewId := viewId
  startSequence := startSequence
  replaySequence := startSequence
  nextPage := 0
  replayStarted := false
  lastResidence := none
  maxRecordSequence := 0
  records := ∅
  bytes := ownerAccountingBytes

/-- `if let Some(staging) = view.staging.remove(&owner)`, with the release of its bytes. -/
def removeStaging : View :=
  match view.staging[owner]? with
  | none => view
  | some staging => view.dropStaging (owner, staging)

def beginSnapshot (byteLimit : Nat) (owner sessionId snapshotId viewId : Uuid)
    (startSequence : Nat) : Except String Unit × View :=
  if owner.isNil || sessionId.isNil || snapshotId.isNil || viewId.isNil then
    (.error "nil inventory snapshot identity", view)
  else if !view.expected.contains owner then
    (.error "snapshot source is not an expected member", view)
  else
    let cleared := view.removeStaging owner
    if byteLimit < cleared.accountedBytes + ownerAccountingBytes then
      (.error "inventory staging exceeds metadata budget", cleared)
    else
      let staged := { cleared with
        staging := cleared.staging.insert owner
          (freshStaging sessionId snapshotId viewId startSequence)
        stagingBytes := cleared.stagingBytes + ownerAccountingBytes
        accountedBytes := cleared.accountedBytes + ownerAccountingBytes }
      (.ok (), (staged.clearFresh owner).bump)

/-- The loop of `apply_snapshot_page` over the validated records. -/
def stagePage (staging : StagingView) (updates : List (Residence × InventoryRecord)) :
    StagingView :=
  updates.foldl (fun staging update =>
    { staging with
      maxRecordSequence := max staging.maxRecordSequence update.2.sequence
      lastResidence := some update.1
      records := staging.records.insert update.1 update.2 }) staging

def applySnapshotPage (scope : InventoryScope) (byteLimit : Nat) (owner sessionId snapshotId : Uuid)
    (pageNumber : Nat) (records : List InventoryRecord) : Except String Unit × View :=
  match view.staging[owner]? with
  | none => (.error "missing inventory snapshot", view)
  | some staging =>
    if staging.sessionId ≠ sessionId ∨ staging.snapshotId ≠ snapshotId then
      (.error "inventory snapshot identity changed", view)
    else if staging.replayStarted then
      (.error "inventory snapshot page arrived after replay began", view)
    else if staging.nextPage ≠ pageNumber then
      (.error "inventory snapshot page is not contiguous", view)
    else
      match validatePage scope staging.lastResidence records with
      | .error error => (.error error, view)
      | .ok (additional, updates) =>
        if byteLimit < view.accountedBytes + additional then
          (.error "inventory staging exceeds metadata budget", view)
        else
          let staged := stagePage staging updates
          (.ok (), { view with
            staging := view.staging.insert owner { staged with
              nextPage := staged.nextPage + 1
              bytes := staged.bytes + additional }
            stagingBytes := view.stagingBytes + additional
            accountedBytes := view.accountedBytes + additional })

def applySnapshotDelta (scope : InventoryScope) (byteLimit : Nat) (owner sessionId : Uuid)
    (fromExclusive throughInclusive : Nat) (records : List InventoryRecord) :
    Except String Unit × View :=
  match view.staging[owner]? with
  | none => (.error "missing inventory snapshot", view)
  | some staging =>
    if staging.sessionId ≠ sessionId ∨ staging.replaySequence ≠ fromExclusive then
      (.error "inventory snapshot replay is not contiguous", view)
    else
      match validateDelta staging.records fromExclusive throughInclusive records scope with
      | .error error => (.error error, view)
      | .ok (delta, updates) =>
        if (checkedAddSigned view.accountedBytes delta).all (byteLimit < ·) then
          (.error "inventory staging exceeds metadata budget", view)
        else
          let staged := { staging with
            replayStarted := true
            records := applyRecords staging.records updates
            replaySequence := throughInclusive }
          let view := { view with staging := view.staging.insert owner staged }
          match checkedAddSigned staged.bytes delta with
          | none => (.error "inventory staging accounting underflow", view)
          | some bytes =>
            let view := { view with
              staging := view.staging.insert owner { staged with bytes := bytes } }
            match checkedAddSigned view.stagingBytes delta with
            | none => (.error "inventory staging accounting underflow", view)
            | some stagingBytes =>
              let view := { view with stagingBytes := stagingBytes }
              match checkedAddSigned view.accountedBytes delta with
              | none => (.error "inventory staging accounting underflow", view)
              | some accountedBytes =>
                (.ok (), { view with accountedBytes := accountedBytes })

/-- The loop of `commit_snapshot` over the inverted map. -/
def insertBlocks (blocks : ExtTreeMap StateKey (List Entry)) (owner : Uuid)
    (records : RecordMap) : ExtTreeMap StateKey (List Entry) :=
  records.toList.foldl (fun blocks entry => insertBlock blocks owner entry.2) blocks

/-- The view `commit_snapshot` installs from a complete staging area. -/
def committedView (staging : StagingView) (throughSequence : Nat) : OwnerView where
  viewId := staging.viewId
  appliedSequence := throughSequence
  records := staging.records
  fresh := true
  retired := false

/-- The end of `commit_snapshot`, once the owner's previous view is gone: the staged bytes become
active bytes and the staged records the owner's view. -/
def installOwner (staging : StagingView) (throughSequence : Nat) : View :=
  let installed := { view with
    stagingBytes := view.stagingBytes - staging.bytes
    underflow := view.underflow || view.stagingBytes < staging.bytes
    blocks := insertBlocks view.blocks owner staging.records
    activeBytes := view.activeBytes + staging.bytes
    owners := view.owners.insert owner (committedView staging throughSequence)
    admittedOwnerViews := view.admittedOwnerViews + 1 }
  (installed.addFresh (view.expected.contains owner)).bump

/-- `GlobalIndex::commit_snapshot`; `admitted` is whether `membership.resolve(owner)` succeeds. -/
def commitSnapshot (admitted : Bool) (owner sessionId snapshotId viewId : Uuid)
    (throughSequence pageCount : Nat) : Except String Uuid × View :=
  match view.staging[owner]? with
  | none => (.error "missing inventory snapshot", view)
  | some staging =>
    if staging.sessionId ≠ sessionId ∨ staging.snapshotId ≠ snapshotId ∨
        staging.viewId ≠ viewId ∨ staging.replaySequence ≠ throughSequence ∨
        staging.nextPage ≠ pageCount ∨ throughSequence < staging.startSequence ∨
        throughSequence < staging.maxRecordSequence then
      (.error "inventory snapshot commit is incomplete", view)
    else if !view.expected.contains owner || !admitted then
      (.error "inventory snapshot source is no longer admitted", view.dropStaging (owner, staging))
    else
      let cleared := { view with staging := view.staging.erase owner }.removeActiveOwner owner
      (.ok viewId, cleared.installOwner owner staging throughSequence)

def abortSnapshot (sessionId : Uuid) : View :=
  match view.staging[owner]? with
  | none => view
  | some staging =>
    if staging.sessionId = sessionId then (view.dropStaging (owner, staging)).bump else view

/-- The loop of `apply_delta` over the inverted map. -/
def updateBlocks (blocks : ExtTreeMap StateKey (List Entry)) (owner : Uuid)
    (updates : List (Residence × InventoryRecord)) : ExtTreeMap StateKey (List Entry) :=
  updates.foldl (fun blocks update =>
    let removed := removeBlock blocks owner update.1
    if update.2.present then insertBlock removed owner update.2 else removed) blocks

def applyDelta (scope : InventoryScope) (byteLimit : Nat) (owner viewId : Uuid)
    (fromExclusive throughInclusive : Nat) (records : List InventoryRecord) :
    Except String DeltaApply × View :=
  match view.owners[owner]? with
  | none => (.error "owner view is not installed", view)
  | some ownerView =>
    if ownerView.viewId ≠ viewId ∨ ownerView.retired then
      (.error "owner view identity changed", view)
    else if throughInclusive ≤ ownerView.appliedSequence then
      (.ok .duplicate, view)
    else if fromExclusive < ownerView.appliedSequence then
      (.ok (.overlap ownerView.appliedSequence), view)
    else if ownerView.appliedSequence < fromExclusive then
      (.error "inventory delta has a coverage gap", view)
    else
      match validateDelta ownerView.records fromExclusive throughInclusive records scope with
      | .error error => (.error error, view)
      | .ok (delta, updates) =>
        if (checkedAddSigned view.accountedBytes delta).all (byteLimit < ·) then
          (.error "complete global index exceeds metadata budget", view)
        else
          let updated := { view with
            blocks := updateBlocks view.blocks owner updates
            owners := view.owners.insert owner { ownerView with
              records := applyRecords ownerView.records updates
              appliedSequence := throughInclusive
              fresh := true } }
          let view := updated.addFresh (!ownerView.fresh && view.expected.contains owner)
          match checkedAddSigned view.activeBytes delta with
          | none => (.error "active index accounting underflow", view)
          | some activeBytes =>
            let view := { view with activeBytes := activeBytes }
            match checkedAddSigned view.accountedBytes delta with
            | none => (.error "index accounting underflow", view)
            | some accountedBytes =>
              (.ok .applied, { view with accountedBytes := accountedBytes }.bump)

def ownerWatermark : Option (Uuid × Nat) :=
  match view.owners[owner]? with
  | none => none
  | some ownerView =>
    if ownerView.retired then none else some (ownerView.viewId, ownerView.appliedSequence)

def retireOwner : View :=
  let cleared := view.removeStaging owner
  match cleared.owners[owner]? with
  | none => cleared.bump
  | some ownerView =>
    let counted := (cleared.dropAdmitted (!ownerView.retired)).dropFresh
      (!ownerView.retired && ownerView.fresh && cleared.expected.contains owner)
    { counted with
      owners := counted.owners.insert owner
        { ownerView with retired := true, fresh := false } }.bump

/-- The body of the loop of `cleanup_owner`: the inverted map, the records that are left and the
bytes freed so far. -/
def cleanupRecord (state : ExtTreeMap StateKey (List Entry) × RecordMap × Nat)
    (residence : Residence) : ExtTreeMap StateKey (List Entry) × RecordMap × Nat :=
  (removeBlock state.1 owner residence, state.2.1.erase residence,
    if state.2.1.contains residence then state.2.2 + entryBytes residence.1 else state.2.2)

def cleanupOwner (limit : Nat) : Bool × View :=
  match view.owners[owner]? with
  | none => (true, view)
  | some ownerView =>
    if !ownerView.retired then
      (true, view)
    else
      let residences := ownerView.records.keys.take (max limit 1)
      let (blocks, records, removedBytes) :=
        residences.foldl (cleanupRecord owner) (view.blocks, ownerView.records, 0)
      let trimmed := { view with
        blocks := blocks
        owners := view.owners.insert owner { ownerView with records := records }
        }.releaseActiveBytes removedBytes
      if records.isEmpty then
        (true, { trimmed with
          owners := trimmed.owners.erase owner }.releaseActiveBytes ownerAccountingBytes)
      else
        (false, trimmed)

def coverage (registrationValid : Bool) : DiscoveryCoverage :=
  if !registrationValid || view.membershipRevision.isNone then
    .unavailable
  else if view.freshExpectedOwnerViews = view.expected.size then
    .completeAtWatermarks
  else if 0 < view.admittedOwnerViews then
    .partialHints
  else
    .unavailable

/-- The replica `lookup` makes of an entry, if its owner is admitted, not local and not retired. -/
def admittedReplica (membership : MembershipView) (now : Nat) (entry : Entry) :
    Option ReplicaLocation :=
  match membership.resolve now entry.owner with
  | none => none
  | some owner =>
    if owner.incarnation ≠ membership.owner.incarnation ∧
        view.owners[entry.owner]?.any (fun ownerView => !ownerView.retired) then
      some ⟨owner, entry.sequence, entry.metadata⟩
    else
      none

/-- The inner loop of `lookup`: the replicas of one medium, up to the limit. -/
def collectReplicas (view : View) (membership : MembershipView) (now : Nat) :
    List Entry → (found : Nat) → List ReplicaLocation
  | [], _ => []
  | entry :: entries, found =>
    let replica := (view.admittedReplica membership now entry).toList
    let found := found + replica.length
    if found = discoveryMaxReplicasPerMedium then replica
    else replica ++ collectReplicas view membership now entries found

/-- The loop of `lookup` over the media. -/
def replicasOf (membership : MembershipView) (now : Nat) (entries : List Entry) :
    List ReplicaLocation :=
  [ReplicaMedium.dram, ReplicaMedium.ssd].flatMap fun medium =>
    view.collectReplicas membership now
      (entries.filter fun entry => entry.metadata.medium = medium) 0

end View

namespace GlobalIndex

/-- What `lookup` answers for one key. -/
def lookupKey (index : GlobalIndex) (now : Nat) (coverage : DiscoveryCoverage) (key : StateKey) :
    BlockCandidates :=
  if !index.scope.contains key.ns then
    ⟨key, [], .unavailable⟩
  else
    match index.view.blocks[key]? with
    | some entries =>
      if coverage ≠ .unavailable then
        ⟨key, index.view.replicasOf index.membership now entries, coverage⟩
      else
        ⟨key, [], coverage⟩
    | none => ⟨key, [], coverage⟩

def lookup (index : GlobalIndex) (now : Nat) (keys : List StateKey) : List BlockCandidates :=
  let coverage := index.view.coverage (index.membership.permits now index.membership.owner)
  keys.map (index.lookupKey now coverage)

end GlobalIndex

/-! ### Sequences of calls -/

inductive MembershipCall where
  | renew (sentAt ttl : Nat)
  | replaceMembers (members : List (String × CacheOwner))
  | invalidateSnapshot
  | fence

def MembershipView.call (membership : MembershipView) (now : Nat) :
    MembershipCall → MembershipView
  | .renew sentAt ttl => (membership.renew now sentAt ttl).2
  | .replaceMembers members => membership.replaceMembers members
  | .invalidateSnapshot => membership.invalidateSnapshot
  | .fence => membership.fence

/-- A call that changes a global index, or the membership view it consults. -/
inductive IndexCall where
  | setExpectedOwners (revision : Int) (owners : List Uuid)
  | markSyncing (owner : Uuid)
  | confirmProgress (owner viewId : Uuid) (appliedSequence : Nat)
  | beginSnapshot (owner sessionId snapshotId viewId : Uuid) (startSequence : Nat)
  | applySnapshotPage (owner sessionId snapshotId : Uuid) (pageNumber : Nat)
      (records : List InventoryRecord)
  | applySnapshotDelta (owner sessionId : Uuid) (fromExclusive throughInclusive : Nat)
      (records : List InventoryRecord)
  | commitSnapshot (owner sessionId snapshotId viewId : Uuid) (throughSequence pageCount : Nat)
  | abortSnapshot (owner sessionId : Uuid)
  | applyDelta (owner viewId : Uuid) (fromExclusive throughInclusive : Nat)
      (records : List InventoryRecord)
  | retireOwner (owner : Uuid)
  | cleanupOwner (owner : Uuid) (limit : Nat)
  | reset
  | membership (call : MembershipCall)

def GlobalIndex.viewAfter (index : GlobalIndex) (now : Nat) : IndexCall → View
  | .setExpectedOwners revision owners =>
    index.view.setExpectedOwners index.membership.owner.incarnation revision owners
  | .markSyncing owner => index.view.markSyncing owner
  | .confirmProgress owner viewId appliedSequence =>
    (index.view.confirmProgress owner viewId appliedSequence).2
  | .beginSnapshot owner sessionId snapshotId viewId startSequence =>
    (index.view.beginSnapshot index.byteLimit owner sessionId snapshotId viewId startSequence).2
  | .applySnapshotPage owner sessionId snapshotId pageNumber records =>
    (index.view.applySnapshotPage index.scope index.byteLimit owner sessionId snapshotId
      pageNumber records).2
  | .applySnapshotDelta owner sessionId fromExclusive throughInclusive records =>
    (index.view.applySnapshotDelta index.scope index.byteLimit owner sessionId fromExclusive
      throughInclusive records).2
  | .commitSnapshot owner sessionId snapshotId viewId throughSequence pageCount =>
    (index.view.commitSnapshot (index.membership.resolve now owner).isSome owner sessionId
      snapshotId viewId throughSequence pageCount).2
  | .abortSnapshot owner sessionId => index.view.abortSnapshot owner sessionId
  | .applyDelta owner viewId fromExclusive throughInclusive records =>
    (index.view.applyDelta index.scope index.byteLimit owner viewId fromExclusive
      throughInclusive records).2
  | .retireOwner owner => index.view.retireOwner owner
  | .cleanupOwner owner limit => (index.view.cleanupOwner owner limit).2
  | .reset => .empty
  | .membership _ => index.view

/-- One call at the instant `now`. -/
def GlobalIndex.call (index : GlobalIndex) (now : Nat) (call : IndexCall) : GlobalIndex :=
  { index with
    membership :=
      match call with
      | .membership change => index.membership.call now change
      | _ => index.membership
    view := index.viewAfter now call }

def indexMachine : Machine GlobalIndex (Nat × IndexCall) where
  init index := index.view = .empty
  step index label index' := index' = index.call label.1 label.2

end OrbitKV
