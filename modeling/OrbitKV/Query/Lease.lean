import OrbitKV.Lib.Machine
import OrbitKV.Lib.Word

/-!
# Query leases

`QueryLeaseManager` of `query/lease.rs`. `Instant::now` and the token that `fresh` draws are
arguments; blocks, owners and reservations are of any types `S`, `O` and `R`. The table is returned
with every result, since a panic in the middle of a batch would leave it as it is then. The serial
of a lease and the counters of `LeaseHistory` record what has happened.
-/

namespace OrbitKV

abbrev QueryLeaseId := Vector UInt8 16

instance : LawfulBEq QueryLeaseId :=
  inferInstance

inductive EngineError where
  | invalidArgument (message : String)
  | storage (message : String)
  deriving DecidableEq, Repr

structure QueryLease (S O R : Type) where
  instanceId : String
  blocks : List S
  remainingConsumers : Nat
  expiresAt : Nat
  ownership : Option (O × R)
  serial : Nat

abbrev QueryLeases (S O R : Type) := QueryLeaseId → Option (QueryLease S O R)

def defaultLeaseTtl : Nat := 600 * 10 ^ 9

/-- What a consumer leaves of a lease. -/
def QueryLease.afterShare {S O R : Type} (lease : QueryLease S O R) : Option (QueryLease S O R) :=
  if 1 < lease.remainingConsumers then
    some { lease with remainingConsumers := lease.remainingConsumers - 1 }
  else none

namespace QueryLeases

variable {S O R V : Type} (leases : QueryLeases S O R)

def retain (keep : QueryLease S O R → Bool) : QueryLeases S O R :=
  fun token => (leases token).filter keep

def sweepExpired (now : Nat) : QueryLeases S O R :=
  leases.retain (now < ·.expiresAt)

def insert (token : QueryLeaseId) (lease : QueryLease S O R) : QueryLeases S O R :=
  Function.update leases token (some lease)

def create (now : Nat) (token : QueryLeaseId) (instanceId : String) (blocks : List S)
    (consumers : Nat) (ownership : Option (O × R)) (serial : Nat) : QueryLeases S O R :=
  (leases.sweepExpired now).insert token
    { instanceId, blocks, ownership, serial
      remainingConsumers := max consumers 1
      expiresAt := now + defaultLeaseTtl }

/-- The first loop of `consume_batch`. -/
def checkBatch (now : Nat) (instanceId : String) :
    List QueryLeaseId → (seen : List QueryLeaseId) → Except (Failure EngineError) Unit
  | [], _ => .ok ()
  | token :: tokens, seen =>
    if token ∈ seen then
      fail (.invalidArgument "restore batch contains duplicate query lease")
    else
      match (leases token).filter (now < ·.expiresAt) with
      | none => fail (.storage "query lease is unknown or expired")
      | some lease =>
        if lease.instanceId ≠ instanceId then
          fail (.storage ("query lease belongs to instance " ++ lease.instanceId ++ ", got " ++
            instanceId))
        else checkBatch now instanceId tokens (token :: seen)

/-- The last loop of `consume_batch`, with the blocks and reservations so far. -/
def takeShares : List QueryLeaseId → QueryLeases S O R → List S → List R →
    Except (Failure EngineError) (List S × List R) × QueryLeases S O R
  | [], leases, blocks, reservations => (.ok (blocks, reservations), leases)
  | token :: tokens, leases, blocks, reservations =>
    match leases token with
    | none => (.error .panic, leases)
    | some lease =>
      takeShares tokens (Function.update leases token lease.afterShare) (blocks ++ lease.blocks)
        (reservations ++ (lease.ownership.map (·.2)).toList)

def consumeBatch (now : Nat) (instanceId : String) (tokens : List QueryLeaseId)
    (validate : List (List S) → Except EngineError V) :
    Except (Failure EngineError) (V × List S × List R) × QueryLeases S O R :=
  match leases.checkBatch now instanceId tokens [] with
  | .error failure => (.error failure, leases)
  | .ok () =>
    match tokens.mapM fun token => (leases token).map (·.blocks) with
    | none => (.error .panic, leases)
    | some sources =>
      match validate sources with
      | .error e => (fail e, leases)
      | .ok validated =>
        match takeShares tokens leases [] [] with
        | (.error failure, leases) => (.error failure, leases)
        | (.ok (blocks, reservations), leases) => (.ok (validated, blocks, reservations), leases)

def release (now : Nat) (token : QueryLeaseId) : Bool × QueryLeases S O R :=
  let leases := leases.sweepExpired now
  ((leases token).isSome, Function.update leases token none)

def releaseInstance (instanceId : String) : QueryLeases S O R :=
  leases.retain (·.instanceId ≠ instanceId)

def releaseOwner (isOwner : O → Bool) : QueryLeases S O R :=
  leases.retain fun lease => !lease.ownership.any fun owned => isOwner owned.1

end QueryLeases

/-! ### Histories -/

inductive LeaseCall (S O R : Type) where
  | create (now : Nat) (token : QueryLeaseId) (instanceId : String) (blocks : List S)
      (consumers : Nat) (ownership : Option (O × R))
  | consumeBatch (now : Nat) (instanceId : String) (tokens : List QueryLeaseId)
      (validate : List (List S) → Except EngineError Unit)
  | release (now : Nat) (token : QueryLeaseId)
  | releaseInstance (instanceId : String)
  | releaseOwner (isOwner : O → Bool)
  | sweepExpired (now : Nat)

/-- `consumers` has the number that each creation was for, `handed` the successful batches that
handed out its lease. -/
structure LeaseHistory (S O R : Type) where
  leases : QueryLeases S O R
  created : Nat
  consumers : Nat → Nat
  handed : Nat → Nat

namespace LeaseHistory

variable {S O R : Type}

def new : LeaseHistory S O R where
  leases _ := none
  created := 0
  consumers _ := 0
  handed _ := 0

/-- Whether a batch hands out the lease of a creation. -/
def holds (h : LeaseHistory S O R) (tokens : List QueryLeaseId) (serial : Nat) : Bool :=
  tokens.any fun token => (h.leases token).any (·.serial = serial)

def next (h : LeaseHistory S O R) : LeaseCall S O R → LeaseHistory S O R
  | .create now token instanceId blocks consumers ownership =>
    { h with
      leases := h.leases.create now token instanceId blocks consumers ownership h.created
      created := h.created + 1
      consumers := Function.update h.consumers h.created consumers }
  | .consumeBatch now instanceId tokens validate =>
    match h.leases.consumeBatch now instanceId tokens validate with
    | (.error _, leases) => { h with leases }
    | (.ok _, leases) =>
      { h with
        leases
        handed := fun serial => h.handed serial + if h.holds tokens serial then 1 else 0 }
  | .release now token => { h with leases := (h.leases.release now token).2 }
  | .releaseInstance instanceId => { h with leases := h.leases.releaseInstance instanceId }
  | .releaseOwner isOwner => { h with leases := h.leases.releaseOwner isOwner }
  | .sweepExpired now => { h with leases := h.leases.sweepExpired now }

end LeaseHistory

end OrbitKV
