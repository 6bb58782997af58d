import Mathlib.Tactic
import OrbitKV.Lib.Bisect

/-!
# Cache keys and inventory records

A `Uuid` is its 128 bits, and a map is an extensional ordered map: the hashed maps of the source are
never iterated where the order could show.
-/

namespace OrbitKV

open Std

abbrev Uuid := BitVec 128

/-- One instance for every map keyed by owners. -/
instance : TransOrd Uuid :=
  inferInstanceAs (TransOrd (BitVec 128))

def Uuid.isNil (id : Uuid) : Bool :=
  id == 0

/-- `StateKey`: the materialized cache key used by DRAM, SSD and the peer directory. -/
structure StateKey where
  ns : String
  hash : List UInt8
  deriving DecidableEq, Repr

/-- The derived order: namespace first, then hash. -/
instance : Ord StateKey :=
  ⟨compareLex (compareOn StateKey.ns) (compareOn StateKey.hash)⟩

instance : TransOrd StateKey :=
  inferInstanceAs (TransCmp (compareLex (compareOn StateKey.ns) (compareOn StateKey.hash)))

instance : LawfulEqOrd StateKey where
  eq_of_compare := by
    rintro ⟨ns, hash⟩ ⟨ns', hash'⟩ heq
    obtain ⟨hns, hhash⟩ := compareLex_eq_eq.mp heq
    simp_all [compareOn]

inductive ReplicaMedium where
  | unknown
  | dram
  | ssd
  | hbm
  deriving DecidableEq, Repr

instance : Ord ReplicaMedium :=
  ⟨compareOn ReplicaMedium.ctorIdx⟩

instance : TransOrd ReplicaMedium :=
  inferInstanceAs (TransCmp (compareOn ReplicaMedium.ctorIdx))

instance : LawfulEqOrd ReplicaMedium where
  eq_of_compare := by
    intro a b heq
    cases a <;> cases b <;> first | rfl | exact absurd heq (by decide)

/-- `matches!(medium, ReplicaMedium::Dram | ReplicaMedium::Ssd)`. -/
def ReplicaMedium.isStored : ReplicaMedium → Bool
  | .dram | .ssd => true
  | .unknown | .hbm => false

inductive ReplicaRepresentation where
  | unknown
  | raw
  | ans
  | fp8
  | turboQuant
  | mixed
  deriving DecidableEq, Repr

structure ReplicaMetadata where
  medium : ReplicaMedium
  representation : ReplicaRepresentation
  storedBytes : Option Nat
  deriving DecidableEq, Repr

structure CacheOwner where
  endpoint : String
  incarnation : Uuid
  deriving DecidableEq, Repr

abbrev Residence := StateKey × ReplicaMedium

instance : Ord Residence := lexOrd

/-- `InventoryRecord`. Metadata is required for residency advertisements; authorization-only records
may omit it. -/
structure InventoryRecord where
  key : StateKey
  sequence : Nat
  present : Bool
  metadata : Option ReplicaMetadata
  deriving DecidableEq, Repr

abbrev RecordMap := ExtTreeMap Residence InventoryRecord

/-- `std::mem::size_of::<InventoryRecord>()` on the 64-bit targets the system runs on. -/
def inventoryRecordSize : Nat := 88

def InventoryRecord.estimatedSize (record : InventoryRecord) : Nat :=
  inventoryRecordSize + record.key.ns.utf8ByteSize + record.key.hash.length

def inventoryBatchBytes : Nat := 512 * 1024

def inventoryBatchRecords : Nat := 1024

inductive InventoryScope where
  | allNamespaces
  | exactNamespaces (namespaces : List String)
  deriving DecidableEq, Repr

/-- `InventoryScope::contains`: a binary search in the sorted namespaces. -/
def InventoryScope.contains (scope : InventoryScope) (ns : String) : Bool :=
  match scope with
  | .allNamespaces => true
  | .exactNamespaces namespaces =>
    (binarySearchBy (fun candidate => compare candidate ns) namespaces).isOk

structure ReplicaLocation where
  owner : CacheOwner
  sequence : Nat
  metadata : ReplicaMetadata
  deriving DecidableEq, Repr

inductive DiscoveryCoverage where
  | completeAtWatermarks
  | partialHints
  | unavailable
  deriving DecidableEq, Repr

structure BlockCandidates where
  key : StateKey
  replicas : List ReplicaLocation
  coverage : DiscoveryCoverage
  deriving DecidableEq, Repr

def discoveryMaxReplicasPerMedium : Nat := 4

end OrbitKV
