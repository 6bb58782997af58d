import OrbitKV.Lib.Lru
import OrbitKV.Lib.Machine
import OrbitKV.Storage.Block
import OrbitKV.Storage.Inventory

/-!
# The DRAM store

Every method runs under the store's lock. Whether a block has been warmed and the strong count of
its `Arc` are arguments. Metrics and insertion times are left out.
-/

namespace OrbitKV

open Std

open LruMap (empty entries peek touch contains oldest)

variable {L : Type → Type} [LruMap StateKey L]

/-! ### Admission -/

/-- A count-min sketch: rows of counters, each with its own hash function. -/
structure Estimator where
  rows : List (List UInt8 × (StateKey → Nat))

namespace Estimator

/-- `hasher` gives the random state of each row. -/
def new (hashes slots : Nat) (hasher : Nat → StateKey → Nat) : Estimator :=
  ⟨(List.range hashes).map fun row => (List.replicate slots 0, hasher row)⟩

def column (row : List UInt8 × (StateKey → Nat)) (key : StateKey) : Nat :=
  row.2 key % row.1.length

def incrNoOverflow (current : UInt8) : UInt8 × UInt8 :=
  if current = 255 then (current, current)
  else if current = 254 then (current, 255)
  else (current, current + 1)

def incr (estimator : Estimator) (key : StateKey) : UInt8 × Estimator :=
  let counters := estimator.rows.map fun row =>
    (incrNoOverflow (row.1.getD (column row key) 0)).2
  (counters.foldl min 255,
    ⟨estimator.rows.zipWith (fun row new => (row.1.set (column row key) new, row.2)) counters⟩)

def get (estimator : Estimator) (key : StateKey) : UInt8 :=
  (estimator.rows.map fun row => row.1.getD (column row key) 0).foldl min 255

def age (estimator : Estimator) (shift : UInt8) : Estimator :=
  ⟨estimator.rows.map fun row => (row.1.map (· >>> shift), row.2)⟩

end Estimator

structure TinyLfu where
  estimator : Estimator
  windowCounter : Nat
  windowLimit : Nat

namespace TinyLfu

def windowLimitMultiplier : Nat := 8

def ageShiftBits : UInt8 := 1

/-- `optimalParas` is the floating-point choice of the sketch's width and depth. -/
def new (optimalParas : Nat → Nat × Nat) (hasher : Nat → StateKey → Nat) (cacheSize : Nat) :
    TinyLfu where
  estimator := .new (optimalParas cacheSize).2 (optimalParas cacheSize).1 hasher
  windowCounter := 0
  windowLimit := cacheSize * windowLimitMultiplier

def get (freq : TinyLfu) (key : StateKey) : UInt8 :=
  freq.estimator.get key

def incr (freq : TinyLfu) (key : StateKey) : UInt8 × TinyLfu :=
  let windowSize := freq.windowCounter
  let freq := { freq with windowCounter := windowSize + 1 }
  let freq :=
    if windowSize = freq.windowLimit ∨ freq.windowLimit * 2 < windowSize then
      { freq with windowCounter := 0, estimator := freq.estimator.age ageShiftBits }
    else freq
  let (count, estimator) := freq.estimator.incr key
  (count, { freq with estimator })

end TinyLfu

inductive CacheInsertOutcome where
  | insertedNew
  | alreadyExists
  | rejected
  deriving DecidableEq, Repr

structure TinyLfuCache (L : Type → Type) where
  lru : L SealedBlock
  freq : Option TinyLfu

namespace TinyLfuCache

def defaultBytesPerValue : Nat := 128 * 1024 * 1024

def newUnbounded (optimalParas : Nat → Nat × Nat) (hasher : Nat → StateKey → Nat)
    (capacityBytes : Nat) (enableLfuAdmission : Bool) (bytesPerValueHint : Option Nat) :
    TinyLfuCache L :=
  let bytesPerValue := (bytesPerValueHint.filter (0 < ·)).getD defaultBytesPerValue
  let estimatedItems := max 1 (capacityBytes / bytesPerValue)
  ⟨empty, if enableLfuAdmission then some (.new optimalParas hasher estimatedItems) else none⟩

variable (cache : TinyLfuCache L) (key : StateKey)

def recordAccess : TinyLfuCache L :=
  { cache with freq := cache.freq.map fun freq => (freq.incr key).2 }

def get : Option SealedBlock × TinyLfuCache L :=
  match LruMap.peek cache.lru key with
  | none => (none, cache)
  | some block => (some block, { cache with lru := touch cache.lru key }.recordAccess key)

def containsKey : Bool :=
  contains cache.lru key

def peek (cache : TinyLfuCache L) (key : StateKey) : Option SealedBlock :=
  LruMap.peek cache.lru key

/-- `strongCount` is the count of the block's `Arc` when it is read. -/
def isCacheOwnedOnly (strongCount : Nat) : Bool :=
  (LruMap.peek cache.lru key).isSome && strongCount = 1

def rejects : Bool :=
  cache.freq.any fun freq =>
    (oldest cache.lru).any fun victim => freq.get key < freq.get victim.1

def insert (cache : TinyLfuCache L) (key : StateKey) (block : SealedBlock) :
    CacheInsertOutcome × TinyLfuCache L :=
  let cache := cache.recordAccess key
  if cache.containsKey key then (.alreadyExists, cache)
  else if cache.rejects key then (.rejected, cache)
  else (.insertedNew, { cache with lru := LruMap.insert cache.lru key block })

def remove (cache : TinyLfuCache L) (key : StateKey) : Option SealedBlock × TinyLfuCache L :=
  (LruMap.peek cache.lru key, { cache with lru := LruMap.remove cache.lru key })

end TinyLfuCache

/-! ### Residents and their classes -/

structure ResidentMetadata where
  bytes : Nat
  deriving DecidableEq, Repr

inductive ResidentClass where
  | reclaimable
  | probationary
  | retained
  deriving DecidableEq, Repr

structure RemovedResident where
  key : StateKey
  block : SealedBlock

/-- `debug` tells whether the build keeps debug assertions. -/
structure DramStoreInner (L : Type → Type) where
  inventory : Option Inventory
  cache : TinyLfuCache L
  reclaimable : L ResidentMetadata
  probationary : L ResidentMetadata
  retained : L ResidentMetadata
  retainedBytes : Nat
  protectedLimit : Nat
  debug : Bool

/-- What stops a method: an `expect`, a debug assertion, the byte counter leaving the range of a
`u64`, or a panic of the inventory. -/
inductive DramPanic where
  | protectedBytesHaveNoOwner
  | candidateNotResident
  | debugAssertion
  | bytesUnderflow
  | bytesOverflow
  | inventory (panic : ChangePanic)
  deriving DecidableEq, Repr

abbrev Dram (α : Type) := Except DramPanic α

namespace DramStoreInner

variable (inner : DramStoreInner L) (key : StateKey)

def debugAssert (condition : Bool) : Dram Unit :=
  if inner.debug && !condition then .error .debugAssertion else .ok ()

def classLru : ResidentClass → L ResidentMetadata
  | .reclaimable => inner.reclaimable
  | .probationary => inner.probationary
  | .retained => inner.retained

/-- The write through the reference that `class_lru` returns. -/
def setClassLru (cls : ResidentClass) (lru : L ResidentMetadata) : DramStoreInner L :=
  match cls with
  | .reclaimable => { inner with reclaimable := lru }
  | .probationary => { inner with probationary := lru }
  | .retained => { inner with retained := lru }

/-- `inventory.change` for the DRAM medium, if there is an inventory. -/
def notify (metadata : Option ReplicaMetadata) : Dram (DramStoreInner L) :=
  match inner.inventory with
  | none => .ok inner
  | some inventory =>
    match inventory.change key .dram metadata with
    | .error panic => .error (.inventory panic)
    | .ok inventory => .ok { inner with inventory := some inventory }

def addRetained (bytes : Nat) : Dram (DramStoreInner L) :=
  if inner.retainedBytes + bytes < u64Bound then
    .ok { inner with retainedBytes := inner.retainedBytes + bytes }
  else .error .bytesOverflow

def subRetained (bytes : Nat) : Dram (DramStoreInner L) :=
  if bytes ≤ inner.retainedBytes then
    .ok { inner with retainedBytes := inner.retainedBytes - bytes }
  else .error .bytesUnderflow

def refreshRecency : Dram (DramStoreInner L) :=
  if contains inner.reclaimable key then
    .ok { inner with reclaimable := touch inner.reclaimable key }
  else if contains inner.probationary key then
    .ok { inner with probationary := touch inner.probationary key }
  else if contains inner.retained key then
    .ok { inner with retained := touch inner.retained key }
  else do
    inner.debugAssert !(inner.cache.containsKey key)
    return inner

def insertBlock (block : SealedBlock) (cls : ResidentClass) (warmed : Bool) :
    Dram (CacheInsertOutcome × DramStoreInner L) :=
  if warmed && inner.cache.containsKey key then
    .ok (.alreadyExists, inner)
  else
    let footprintBytes := block.memoryFootprint
    let cls :=
      if 0 < inner.protectedLimit ∧ cls = .retained then .probationary else cls
    match inner.cache.insert key block with
    | (.insertedNew, cache) => do
        let inner ← { inner with cache }.notify key (some block.replicaMetadata)
        let inner := inner.setClassLru cls (LruMap.insert (inner.classLru cls) key ⟨footprintBytes⟩)
        let inner ← if cls = .retained then inner.addRetained footprintBytes else .ok inner
        return (.insertedNew, inner)
    | (.alreadyExists, cache) => do
        return (.alreadyExists, ← { inner with cache }.refreshRecency key)
    | (.rejected, cache) => .ok (.rejected, { inner with cache })

def moveResident (source target : ResidentClass) : Dram (Bool × DramStoreInner L) :=
  match peek (inner.classLru source) key with
  | none => .ok (false, inner)
  | some metadata => do
      let inner := inner.setClassLru source (LruMap.remove (inner.classLru source) key)
      let inner ← if source = .retained then inner.subRetained metadata.bytes else .ok inner
      let inner ← if target = .retained then inner.addRetained metadata.bytes else .ok inner
      return (true, inner.setClassLru target (LruMap.insert (inner.classLru target) key metadata))

/-- The loop of `retain_demand`. Every turn takes one entry out of the retained class, so it is
called with the number of them. -/
def demote (remaining : Nat) : (count : Nat) → DramStoreInner L → Dram (DramStoreInner L)
  | 0, inner =>
    if remaining < inner.retainedBytes then .error .protectedBytesHaveNoOwner else .ok inner
  | count + 1, inner =>
    if remaining < inner.retainedBytes then
      match oldest inner.retained with
      | none => .error .protectedBytesHaveNoOwner
      | some (key, _) => do
          let (_, inner) ← inner.moveResident key .retained .probationary
          demote remaining count inner
    else .ok inner

def retainDemand (block : SealedBlock) (warmed : Bool) : Dram (DramStoreInner L) :=
  let source : Option ResidentClass :=
    if contains inner.probationary key then some .probationary
    else if warmed then some .reclaimable
    else none
  match source with
  | none => .ok inner
  | some source =>
    if !contains (inner.classLru source) key then .ok inner
    else if 0 < inner.protectedLimit then
      if inner.protectedLimit < block.memoryFootprint then .ok inner
      else do
        let remaining := inner.protectedLimit - block.memoryFootprint
        let inner ← demote remaining (entries inner.retained).length inner
        let (_, inner) ← inner.moveResident key source .retained
        return inner
    else do
      let (_, inner) ← inner.moveResident key source .retained
      return inner

/-- Every turn takes one entry out of the class, so it is called with the number of them. -/
def removeLru (cls : ResidentClass) : (count : Nat) → DramStoreInner L →
    Dram (Option RemovedResident × DramStoreInner L)
  | 0, inner => .ok (none, inner)
  | count + 1, inner =>
    match oldest (inner.classLru cls) with
    | none => .ok (none, inner)
    | some (key, metadata) => do
        let inner := inner.setClassLru cls (LruMap.remove (inner.classLru cls) key)
        let (block, cache) := inner.cache.remove key
        let inner := { inner with cache }
        inner.debugAssert block.isSome
        match block with
        | none => removeLru cls count inner
        | some block =>
          let inner ← inner.notify key none
          let inner ← if cls = .retained then inner.subRetained metadata.bytes else .ok inner
          return (some ⟨key, block⟩, inner)

/-- The loop of `remove_lru_batch_from_class` over the candidates. -/
def removeLruBatchFromClass (cls : ResidentClass) (batchSize targetBytes : Nat)
    (strongCount : Nat → Nat) : (candidates : Nat) → DramStoreInner L → List RemovedResident → Nat →
      Dram (DramStoreInner L × List RemovedResident × Nat)
  | 0, inner, removed, removedBytes => .ok (inner, removed, removedBytes)
  | candidates + 1, inner, removed, removedBytes =>
    if removed.length = batchSize ∨ targetBytes ≤ removedBytes then
      .ok (inner, removed, removedBytes)
    else
      match oldest (inner.classLru cls) with
      | none => .ok (inner, removed, removedBytes)
      | some (key, _) =>
        if inner.cache.isCacheOwnedOnly key (strongCount candidates) then do
          match ← removeLru cls (entries (inner.classLru cls)).length inner with
          | (none, _) => .error .candidateNotResident
          | (some resident, inner) =>
            removeLruBatchFromClass cls batchSize targetBytes strongCount candidates inner
              (removed ++ [resident])
              (saturatingAdd removedBytes resident.block.memoryFootprint)
        else
          removeLruBatchFromClass cls batchSize targetBytes strongCount candidates
            (inner.setClassLru cls (touch (inner.classLru cls) key)) removed removedBytes

end DramStoreInner

/-! ### Methods -/

namespace DramStore

open DramStoreInner

def withInventory (cache : TinyLfuCache L) (inventory : Option Inventory) (protectedLimit : Nat)
    (debug : Bool) : DramStoreInner L where
  inventory := inventory
  cache := cache
  reclaimable := empty
  probationary := empty
  retained := empty
  retainedBytes := 0
  protectedLimit := protectedLimit
  debug := debug

variable (inner : DramStoreInner L)

def discover (keys : List StateKey) : List (Option SealedBlock) :=
  keys.map inner.cache.peek

/-- A key, and whether the block under it has been warmed when it is looked at. -/
abbrev SeenKey := StateKey × Bool

/-- The scan of `get_prefix_blocks`, with the blocks found so far; their number is the hit count. -/
def getPrefixBlocks (warming : Bool) : List SeenKey → DramStoreInner L → List SealedBlock →
    Dram (List SealedBlock × DramStoreInner L)
  | [], inner, blocks => .ok (blocks, inner)
  | (key, warmed) :: keys, inner, blocks =>
    if warming then
      match inner.cache.peek key with
      | none => .ok (blocks, inner)
      | some block => getPrefixBlocks warming keys inner (blocks ++ [block])
    else
      match inner.cache.get key with
      | (none, cache) => .ok (blocks, { inner with cache })
      | (some block, cache) => do
          let inner ← { inner with cache }.retainDemand key block warmed
          let inner ← inner.refreshRecency key
          getPrefixBlocks warming keys inner (blocks ++ [block])

def retainDemand : List (SeenKey × SealedBlock) → DramStoreInner L → Dram (DramStoreInner L)
  | [], inner => .ok inner
  | ((key, warmed), block) :: entries, inner => do
      let inner ←
        if inner.cache.peek key = some block then inner.retainDemand key block warmed
        else .ok inner
      retainDemand entries inner

/-- `batch_insert` and `batch_insert_refs` for the retained class, `batch_insert_reclaimable` for
the reclaimable one. -/
def batchInsertAs (cls : ResidentClass) : List (SeenKey × SealedBlock) → DramStoreInner L →
    Dram (DramStoreInner L)
  | [], inner => .ok inner
  | ((key, warmed), block) :: blocks, inner => do
      let (_, inner) ← inner.insertBlock key block cls warmed
      batchInsertAs cls blocks inner

def batchInsert : List (SeenKey × SealedBlock) → DramStoreInner L → Dram (DramStoreInner L) :=
  batchInsertAs .retained

def batchInsertReclaimable : List (SeenKey × SealedBlock) → DramStoreInner L →
    Dram (DramStoreInner L) :=
  batchInsertAs .reclaimable

/-- The second loop of `pin_residencies`. -/
def pinKeys : List InventoryRecord → DramStoreInner L → List (StateKey × SealedBlock) →
    Dram (Option (List (StateKey × SealedBlock)) × DramStoreInner L)
  | [], inner, found => .ok (some found, inner)
  | record :: records, inner, found =>
    match inner.cache.get record.key with
    | (none, cache) => .ok (none, { inner with cache })
    | (some block, cache) => do
        let inner ← { inner with cache }.refreshRecency record.key
        pinKeys records inner (found ++ [(record.key, block)])

def pinResidencies (records : List InventoryRecord) :
    Dram (Option (List (StateKey × SealedBlock)) × DramStoreInner L) :=
  match inner.inventory with
  | none => .ok (none, inner)
  | some inventory =>
    if records.isEmpty || !records.all (inventory.containsRecord · .dram) then .ok (none, inner)
    else pinKeys records inner []

def getBlocksAligned : List StateKey → DramStoreInner L →
    Dram (List (Option SealedBlock) × DramStoreInner L)
  | [], inner => .ok ([], inner)
  | key :: keys, inner => do
      let (block, cache) := inner.cache.get key
      let inner := { inner with cache }
      let inner ← if block.isSome then inner.refreshRecency key else .ok inner
      let (blocks, inner) ← getBlocksAligned keys inner
      return (block :: blocks, inner)

/-- `strongCount` gives, for each class, the count read at each turn of its loop. -/
def removeLruBatch (batchSize targetBytes : Nat) (strongCount : ResidentClass → Nat → Nat) :
    Dram (List RemovedResident × DramStoreInner L) := do
  let sweep (cls : ResidentClass) (inner : DramStoreInner L) :=
    removeLruBatchFromClass cls batchSize targetBytes (strongCount cls)
      (entries (inner.classLru cls)).length inner
  let (inner, removed, removedBytes) ← sweep .reclaimable inner [] 0
  let (inner, removed, removedBytes) ← sweep .probationary inner removed removedBytes
  let (inner, removed, _) ← sweep .retained inner removed removedBytes
  return (removed, inner)

/-- The loop of `remove_all` that withdraws the residents from the inventory. -/
def notifyRemoved : List RemovedResident → DramStoreInner L → Dram (DramStoreInner L)
  | [], inner => .ok inner
  | resident :: removed, inner => do
      let inner ← inner.notify resident.key none
      notifyRemoved removed inner

def removeAll : Dram (List RemovedResident × DramStoreInner L) := do
  let blocks := (entries inner.reclaimable).length + (entries inner.probationary).length +
    (entries inner.retained).length
  let metadata : ExtTreeMap StateKey ResidentMetadata := .ofList
    (entries inner.reclaimable ++ entries inner.probationary ++ entries inner.retained)
  let removed := (entries inner.cache.lru).map fun entry =>
    (⟨entry.1, entry.2⟩ : RemovedResident)
  inner.debugAssert (removed.all fun resident => metadata.contains resident.key)
  let inner ← notifyRemoved removed
    { inner with
      cache := { inner.cache with lru := empty }
      reclaimable := empty
      probationary := empty
      retained := empty }
  inner.debugAssert (removed.length = blocks)
  let left := removed.foldl (fun metadata resident => metadata.erase resident.key) metadata
  inner.debugAssert left.isEmpty
  return (removed, { inner with retainedBytes := 0 })

end DramStore

/-! ### Runs -/

/-- The calls on a store. `ssd` is a change by which the SSD tier advertises on the same
inventory. -/
inductive DramCall where
  | batchInsert (blocks : List (DramStore.SeenKey × SealedBlock))
  | batchInsertReclaimable (blocks : List (DramStore.SeenKey × SealedBlock))
  | retainDemand (entries : List (DramStore.SeenKey × SealedBlock))
  | getPrefixBlocks (keys : List DramStore.SeenKey) (warming : Bool)
  | getBlocksAligned (keys : List StateKey)
  | pinResidencies (records : List InventoryRecord)
  | removeLruBatch (batchSize targetBytes : Nat) (strongCount : ResidentClass → Nat → Nat)
  | removeAll
  | ssd (key : StateKey) (stored : Option (ReplicaRepresentation × Nat))

def DramStoreInner.next (inner : DramStoreInner L) : DramCall → Dram (DramStoreInner L)
  | .batchInsert blocks => DramStore.batchInsert blocks inner
  | .batchInsertReclaimable blocks => DramStore.batchInsertReclaimable blocks inner
  | .retainDemand entries => DramStore.retainDemand entries inner
  | .getPrefixBlocks keys warming => (·.2) <$> DramStore.getPrefixBlocks warming keys inner []
  | .getBlocksAligned keys => (·.2) <$> DramStore.getBlocksAligned keys inner
  | .pinResidencies records => (·.2) <$> DramStore.pinResidencies inner records
  | .removeLruBatch batchSize targetBytes strongCount =>
    (·.2) <$> DramStore.removeLruBatch inner batchSize targetBytes strongCount
  | .removeAll => (·.2) <$> DramStore.removeAll inner
  | .ssd key stored =>
    match inner.inventory with
    | none => .ok inner
    | some inventory =>
      match inventory.change key .ssd (stored.map fun (representation, bytes) =>
          ⟨.ssd, representation, some bytes⟩) with
      | .error panic => .error (.inventory panic)
      | .ok inventory => .ok { inner with inventory := some inventory }

/-- A store as `Storage` opens it, with an inventory of its own or none. -/
def DramStoreInner.IsNew (inner : DramStoreInner L) : Prop :=
  ∃ optimalParas hasher capacityBytes enableLfuAdmission valueSizeHint,
    ∃ (journalBytes : Option Nat) (protectedLimit : Nat) (debug : Bool),
      inner = DramStore.withInventory
        (.newUnbounded optimalParas hasher capacityBytes enableLfuAdmission valueSizeHint)
        (journalBytes.map Inventory.new) protectedLimit debug

def dramMachine : Machine (DramStoreInner L) DramCall :=
  .ofNext DramStoreInner.IsNew fun inner call => (inner.next call).toOption

end OrbitKV
