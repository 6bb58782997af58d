import OrbitKV.Lib.Mvcc
import OrbitKV.State.Record
import OrbitKV.Storage.Inventory

/-!
# Membership records at the coordinator

One leased record for each live member and one persistent epoch for each node, in a store of
`Lib.Mvcc`. `Codec` says what is used of the formats of libraries.
-/

namespace OrbitKV

def inventoryStreamProtocol : String :=
  "orbitkv/inventory-stream/v4"

/-- `Member`; its lease is not serialized. -/
structure Member where
  nodeId : String
  epoch : Nat
  owner : CacheOwner
  protocol : String
  lease : Int
  deriving DecidableEq, Repr

structure ClusterFormat (V : Type) where
  protocol : String
  clusterUuid : Uuid
  revision : Nat
  encoded : V

/-- The values of the store: the JSON of a member and of the format, and the digits of an epoch. -/
structure Codec (V : Type) where
  len : V → Nat
  memberToVec : Member → Except String V
  memberFromSlice : V → Except String Member
  epochToString : Nat → V
  epochFromStr : V → Except String Nat
  formatFromSlice : V → Except String (String × Uuid)
  member_roundTrip : ∀ member value, memberToVec member = .ok value →
    memberFromSlice value = .ok { member with lease := 0 }
  epoch_roundTrip : ∀ epoch < u64Bound, epochFromStr (epochToString epoch) = .ok epoch

section Keys

variable (pre node : String)

def memberKey : String :=
  pre ++ "members/" ++ node

def epochKey : String :=
  pre ++ "epochs/" ++ node

def formatKey : String :=
  pre ++ "format"

end Keys

section Distinct

variable {pre node node' : String}

theorem memberKey_inj : memberKey pre node = memberKey pre node' ↔ node = node' := by
  constructor
  · intro heq
    have hlist := congrArg String.toList heq
    simpa [memberKey, String.toList_append, String.toList_inj] using hlist
  · rintro rfl
    rfl

theorem epochKey_inj : epochKey pre node = epochKey pre node' ↔ node = node' := by
  constructor
  · intro heq
    have hlist := congrArg String.toList heq
    simpa [epochKey, String.toList_append, String.toList_inj] using hlist
  · rintro rfl
    rfl

theorem epochKey_ne_memberKey : epochKey pre node ≠ memberKey pre node' := by
  intro heq
  have hlist := congrArg String.toList heq
  simp [epochKey, memberKey, String.toList_append] at hlist

theorem formatKey_ne_memberKey : formatKey pre ≠ memberKey pre node := by
  intro heq
  have hlist := congrArg String.toList heq
  simp [formatKey, memberKey, String.toList_append] at hlist

theorem formatKey_ne_epochKey : formatKey pre ≠ epochKey pre node := by
  intro heq
  have hlist := congrArg String.toList heq
  simp [formatKey, epochKey, String.toList_append] at hlist

end Distinct

inductive PlainValue where
  | member (member : Member)
  | epoch (epoch : Nat)
  | format (protocol : String) (clusterUuid : Uuid)
  deriving DecidableEq, Repr

def plainMember : PlainValue → Except String Member
  | .member member => .ok { member with lease := 0 }
  | _ => .error "not a member"

def plainEpoch : PlainValue → Except String Nat
  | .epoch epoch => .ok epoch
  | _ => .error "not an epoch"

def plainFormat : PlainValue → Except String (String × Uuid)
  | .format protocol clusterUuid => .ok (protocol, clusterUuid)
  | _ => .error "not a format"

def plainCodec : Codec PlainValue where
  len _ := 0
  memberToVec member := .ok (.member member)
  memberFromSlice := plainMember
  epochToString := .epoch
  epochFromStr := plainEpoch
  formatFromSlice := plainFormat
  member_roundTrip := by
    intro member value hvalue
    cases hvalue
    rfl
  epoch_roundTrip _ _ := rfl

end OrbitKV
