import OrbitKV.Cluster.Coordinator
import OrbitKV.Lib.Machine

/-!
# Registration

Any number of calls of `register` against one coordinator. A request that was sent is executed once
or lost, also after its call has given up on it, and its reply may be lost too. Leases are granted
and end at any time.
-/

namespace OrbitKV

inductive Cluster.BootstrapError where
  | transport (message : String)
  | rejected (message : String)
  deriving DecidableEq, Repr

structure RegisterRequest (V : Type) where
  member : Member
  txn : Txn String V

/-- Where a call of `register` is; `left` is the number of iterations after the present one. -/
inductive RegisterPhase where
  | readingEpoch (left : Nat)
  | transacting (left : Nat) (member : Member)
  | reconciling (left : Nat)
  | returned (result : Except Cluster.BootstrapError Member)

/-- A call of `register`: its arguments, where it is, the transaction that is on its way to the
coordinator and the reply that is on its way back. -/
structure Registering (V : Type) where
  node : String
  owner : CacheOwner
  lease : Int
  expectedCluster : Nat
  format : ClusterFormat V
  phase : RegisterPhase
  request : Option (RegisterRequest V)
  reply : Option (Except String Bool)

def RegisterPhase.enter : Nat → RegisterPhase
  | 0 => .returned (.error (.rejected "registration contention exceeded retry budget"))
  | left + 1 => .readingEpoch left

def RegisterPhase.reject (message : String) : RegisterPhase :=
  .returned (.error (.rejected message))

namespace Registering

variable {V : Type} (codec : Codec V) (pre : String) (clusterId : Nat)

def new (node : String) (owner : CacheOwner) (lease : Int) (expectedCluster : Nat)
    (format : ClusterFormat V) : Registering V where
  node := node
  owner := owner
  lease := lease
  expectedCluster := expectedCluster
  format := format
  phase := .enter 8
  request := none
  reply := none

/-- The transaction of a call that stores `member` over the epoch last changed at `revision`. -/
def transaction (call : Registering V) (member : Member) (value : V) (revision : Nat) :
    Txn String V where
  comparisons :=
    [.modRevision (formatKey pre) call.format.revision,
      .value (formatKey pre) call.format.encoded,
      .version (memberKey pre call.node) 0,
      .modRevision (epochKey pre call.node) revision]
  mutations :=
    [.put (epochKey pre call.node) (codec.epochToString member.epoch) 0,
      .put (memberKey pre call.node) value call.lease]

/-- The epoch of the next member of the node, as read: the epoch before and its revision. -/
def readEpoch (items : Std.ExtTreeMap String (Item V)) (node : String) :
    Except String (Nat × Nat) :=
  match items[epochKey pre node]? with
  | none => .ok (0, 0)
  | some item => (codec.epochFromStr item.value).map fun previous => (previous, item.modRevision)

def nextMember (call : Registering V) (epoch : Nat) : Member where
  nodeId := call.node
  epoch := epoch
  owner := call.owner
  protocol := inventoryStreamProtocol
  lease := call.lease

/-- The reply of the first `get` and what follows up to the transaction. -/
def afterEpoch (items : Std.ExtTreeMap String (Item V)) (left : Nat) (call : Registering V) :
    Registering V :=
  if clusterId ≠ call.expectedCluster then
    { call with phase := .reject "coordinator cluster changed during registration" }
  else
    match readEpoch codec pre items call.node with
    | .error error => { call with phase := .reject error }
    | .ok (previous, revision) =>
      if previous + 1 < u64Bound then
        let member := call.nextMember (previous + 1)
        match codec.memberToVec member with
        | .error error => { call with phase := .reject error }
        | .ok value => { call with
            phase := .transacting left member
            request := some ⟨member, transaction codec pre call member value revision⟩
            reply := none }
      else
        { call with phase := .reject "node epoch exhausted" }

def afterTransaction (left : Nat) (member : Member) (reply : Except String Bool)
    (call : Registering V) : Registering V :=
  match reply with
  | .error error => { call with phase := .returned (.error (.transport error)) }
  | .ok succeeded =>
    if clusterId ≠ call.expectedCluster then
      { call with phase := .reject "coordinator cluster changed during registration" }
    else if succeeded then
      { call with phase := .returned (.ok member) }
    else
      { call with phase := .reconciling left }

def afterMember (items : Std.ExtTreeMap String (Item V)) (left : Nat) (call : Registering V) :
    Registering V :=
  if clusterId ≠ call.expectedCluster then
    { call with
      phase := .reject "coordinator cluster changed during registration reconciliation" }
  else
    match items[memberKey pre call.node]? with
    | none => { call with phase := .enter left }
    | some item =>
      match codec.memberFromSlice item.value with
      | .error error => { call with phase := .reject error }
      | .ok stored =>
        let existing := { stored with lease := item.lease }
        if existing.nodeId = call.node ∧ existing.owner = call.owner ∧
            existing.lease = call.lease ∧ 0 < existing.epoch then
          { call with phase := .returned (.ok existing) }
        else
          { call with phase := .reject s!"node {call.node} already has a live registration" }

end Registering

/-- The coordinator and all calls. `registered` is not part of the program: it lists the members that
transactions have stored, in order. -/
structure Registry (V : Type) where
  store : Kv String V
  leases : List Int
  calls : List (Registering V)
  registered : List Member

def Registry.new {V : Type} : Registry V :=
  ⟨.empty, [], [], []⟩

inductive RegistryStep (V : Type) where
  | grant (lease : Int)
  | expire (lease : Int)
  | installFormat (value : V)
  | register (node : String) (owner : CacheOwner) (lease : Int) (expectedCluster : Nat)
      (format : ClusterFormat V)
  | readEpoch (call : Nat)
  | execute (call : Nat)
  | lose (call : Nat)
  | answer (call : Nat)
  | readMember (call : Nat)
  | giveUp (call : Nat) (error : String)

namespace Registry

variable {V : Type} [DecidableEq V] (codec : Codec V) (pre : String) (clusterId : Nat)

/-- A transaction at the coordinator. A put under a lease that has ended is an error. -/
def execute (s : Registry V) (request : RegisterRequest V) : Except String Bool × Registry V :=
  if !request.txn.comparisons.all (·.holds s.store.items) then
    (.ok false, s)
  else if request.txn.mutations.all fun mutation =>
      mutation.lease = 0 || s.leases.contains mutation.lease then
    (.ok true, { s with
      store := s.store.commit request.txn.mutations
      registered := s.registered ++ [request.member] })
  else
    (.error "etcdserver: requested lease not found", s)

def next (s : Registry V) : RegistryStep V → Option (Registry V)
  | .grant lease =>
    if lease = 0 ∨ s.leases.contains lease then none
    else some { s with leases := lease :: s.leases }
  | .expire lease =>
    if s.leases.contains lease then
      some { s with leases := s.leases.erase lease, store := s.store.expire lease }
    else none
  | .installFormat value =>
    if (Comparison.version (formatKey pre) 0).holds s.store.items then
      some { s with store := s.store.commit [.put (formatKey pre) value 0] }
    else some s
  | .register node owner lease expectedCluster format =>
    some { s with calls := s.calls ++ [.new node owner lease expectedCluster format] }
  | .readEpoch i =>
    match s.calls[i]? with
    | none => none
    | some call =>
      match call.phase with
      | .readingEpoch left => some { s with
          calls := s.calls.set i (call.afterEpoch codec pre clusterId s.store.items left) }
      | _ => none
  | .execute i =>
    match s.calls[i]? with
    | none => none
    | some call =>
      match call.request with
      | none => none
      | some request =>
        let (reply, s) := s.execute request
        some { s with calls := s.calls.set i { call with
          request := none
          reply := some reply } }
  | .lose i =>
    s.calls[i]?.map fun call => { s with calls := s.calls.set i { call with request := none } }
  | .answer i =>
    match s.calls[i]? with
    | none => none
    | some call =>
      match call.phase, call.reply with
      | .transacting left member, some reply => some { s with
          calls := s.calls.set i (call.afterTransaction clusterId left member reply) }
      | _, _ => none
  | .readMember i =>
    match s.calls[i]? with
    | none => none
    | some call =>
      match call.phase with
      | .reconciling left => some { s with
          calls := s.calls.set i (call.afterMember codec pre clusterId s.store.items left) }
      | _ => none
  | .giveUp i error =>
    match s.calls[i]? with
    | none => none
    | some call =>
      match call.phase with
      | .returned _ => none
      | _ => some { s with
          calls := s.calls.set i { call with phase := .returned (.error (.transport error)) } }

/-- The calls of one cluster, whose keys have the prefix `pre`, from an empty coordinator. -/
def machine : Machine (Registry V) (RegistryStep V) :=
  .ofNext (· = .new) (next codec pre clusterId)

end Registry

end OrbitKV
