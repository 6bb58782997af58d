import Mathlib.Data.List.Sort
import OrbitKV.Planning.Replica
import OrbitKV.Storage.Inventory

/-!
# Plans to fetch from peers

`next_segment` takes the longest run of rows that one owner covers within the limits of one request.
The estimates change, so the decision among equally long runs is an argument of each call.
-/

namespace OrbitKV

open Std

def discoveryMaxKeys : Nat := 128

def discoveryMaxBytes : Nat := 64 * 1024

/-- The derived order: endpoint first, then incarnation. -/
instance : Ord CacheOwner :=
  ⟨compareLex (compareOn CacheOwner.endpoint) (compareOn CacheOwner.incarnation)⟩

instance : TransOrd CacheOwner :=
  inferInstanceAs
    (TransCmp (compareLex (compareOn CacheOwner.endpoint) (compareOn CacheOwner.incarnation)))

inductive PeerSource where
  | dram
  | ssd
  deriving DecidableEq, Repr

def PeerSource.medium : PeerSource → ReplicaMedium
  | .dram => .dram
  | .ssd => .ssd

structure FetchSegment where
  owner : CacheOwner
  source : PeerSource
  records : List InventoryRecord
  storedBytes : Option Nat
  representation : ReplicaRepresentation
  deriving DecidableEq, Repr

structure FetchPlan where
  rows : List ReplicaSet
  source : PeerSource

structure PeerChoice where
  owner : CacheOwner
  count : Nat
  storedBytes : Option Nat
  representation : ReplicaRepresentation

/-- What a `CostEstimateKey` of a peer is made from. -/
structure PeerCostKey where
  source : PeerSource
  owner : CacheOwner
  representation : ReplicaRepresentation
  storedBytes : Nat
  fragments : Nat

/-- `selection_enabled` and `select_route` at one moment. The default is the first candidate, so the
route is one of the candidates. -/
structure RouteSelection where
  enabled : Bool
  select : List PeerCostKey → Nat
  select_lt : ∀ keys, keys ≠ [] → select keys < keys.length

/-- The loop of `selected_choice` over the rows: the rows in a row that the owner covers within the
byte limit, after `bytes` bytes. -/
def coverage (medium : ReplicaMedium) (owner : CacheOwner) : Nat → List ReplicaSet → Nat
  | _, [] => 0
  | bytes, row :: rows =>
    if row.covers medium owner then
      let bytes := saturatingAdd bytes row.key.hash.length
      if bytes ≤ discoveryMaxBytes then coverage medium owner bytes rows + 1 else 0
    else 0

/-- The order of `sort_unstable_by`: longer runs first, then by owner. -/
def rankCandidates : CacheOwner × Nat → CacheOwner × Nat → Ordering :=
  compareLex (fun first second => compare second.2 first.2)
    (fun first second => compare first.1 second.1)

def mergeRepresentation (merged : Option ReplicaRepresentation) (next : ReplicaRepresentation) :
    ReplicaRepresentation :=
  match merged with
  | none => next
  | some .unknown => .unknown
  | some previous =>
    if next = .unknown then .unknown
    else if previous = next then previous
    else .mixed

/-- `stored_bytes.zip(bytes).and_then(|(total, bytes)| total.checked_add(bytes))`. -/
def addStoredBytes (total bytes : Option Nat) : Option Nat :=
  match total, bytes with
  | some total, some bytes => if total + bytes < u64Bound then some (total + bytes) else none
  | _, _ => none

namespace FetchPlan

def prefixLen (rows : List ReplicaSet) (source : PeerSource) : Nat :=
  (rows.takeWhile fun row => !(row.peer source.medium).isEmpty).length

variable (plan : FetchPlan) (start : Nat)

def blockCount : Nat :=
  plan.rows.length

def slice (count : Nat) : List ReplicaSet :=
  (plan.rows.drop start).take count

def reject (segment : FetchSegment) : FetchPlan :=
  { plan with
    rows := plan.rows.mapIdx fun index row =>
      if start ≤ index && index < start + segment.records.length then row.rejectPeer segment.owner
      else row }

def addShape (medium : ReplicaMedium) (owner : CacheOwner)
    (shape : Option Nat × Option ReplicaRepresentation) (row : ReplicaSet) :
    Option (Option Nat × Option ReplicaRepresentation) :=
  (row.replicaOf medium owner).map fun replica =>
    (addStoredBytes shape.1 replica.metadata.storedBytes,
      some (mergeRepresentation shape.2 replica.metadata.representation))

def shapeForOwner (count : Nat) (owner : CacheOwner) :
    Option (Option Nat × Option ReplicaRepresentation) :=
  (plan.slice start count).foldlM (addShape plan.source.medium owner) (some 0, none)

def runLength (row : ReplicaSet) (owner : CacheOwner) : Nat :=
  coverage plan.source.medium owner row.key.ns.utf8ByteSize (plan.slice start discoveryMaxKeys)

/-- The candidates of `selected_choice`, in order. -/
def candidates (row : ReplicaSet) : List (CacheOwner × Nat) :=
  ((row.peer plan.source.medium).filterMap fun candidate =>
    let count := plan.runLength start row candidate.owner
    if count = 0 then none else some (candidate.owner, count)).insertionSort
      fun first second => (rankCandidates first second).isLE

def costKey (count : Nat) (owner : CacheOwner) : Option PeerCostKey :=
  (plan.shapeForOwner start count owner).map fun shape =>
    ⟨plan.source, owner, shape.2.getD .unknown, shape.1.getD 0, count⟩

/-- The index of the candidate that is taken, among those with the longest run. -/
def selectedIndex (route : RouteSelection) (start count : Nat) (best : List (CacheOwner × Nat)) :
    Option Nat :=
  if route.enabled then
    (best.mapM fun candidate => plan.costKey start count candidate.1).map route.select
  else some 0

def selectedChoice (route : RouteSelection) (start : Nat) : Option PeerChoice := do
  let row ← plan.rows[start]?
  let candidates := plan.candidates start row
  let longest ← candidates.head?
  let best := candidates.filter (·.2 = longest.2)
  let selected ← plan.selectedIndex route start longest.2 best
  let chosen ← best[selected]?
  let shape ← plan.shapeForOwner start longest.2 chosen.1
  return ⟨chosen.1, longest.2, shape.1, shape.2.getD .unknown⟩

def record (medium : ReplicaMedium) (owner : CacheOwner) (row : ReplicaSet) :
    Option InventoryRecord :=
  (row.replicaOf medium owner).map fun replica => {
    key := row.key
    sequence := replica.sequence
    present := true
    metadata := some replica.metadata }

def nextSegment (route : RouteSelection) (start : Nat) : Option FetchSegment := do
  let choice ← plan.selectedChoice route start
  let records ← (plan.slice start choice.count).mapM (record plan.source.medium choice.owner)
  return ⟨choice.owner, plan.source, records, choice.storedBytes, choice.representation⟩

end FetchPlan

end OrbitKV
