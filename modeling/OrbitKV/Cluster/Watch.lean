import OrbitKV.Catalog.Membership
import OrbitKV.Cluster.Coordinator
import OrbitKV.Lib.Machine
import OrbitKV.Lib.Watch

/-!
# Following the membership

The task that keeps the membership view of a runtime. The coordinator is given by its commits. It
answers a read at a revision with the items as of that revision unless it was compacted, and a watch
with whole revisions in order, perhaps repeated; a response without events says that none are left
up to its revision. The previous value of a deleted key is missing if it was compacted.
-/

namespace OrbitKV

open Std

def maxMembers : Nat := 4096

def memberBytes : Nat := 1024

def snapshotPage : Nat := 128

/-- What is looked at in a `SocketAddr`. -/
structure SocketAddress where
  unspecified : Bool
  port : Nat

def stripPrefix (pre text : String) : Option String :=
  if pre.toList.isPrefixOf text.toList then
    some (String.ofList (text.toList.drop pre.toList.length))
  else
    none

def parseLabel (value : String) : Except String String :=
  if value.isEmpty || 128 < value.utf8ByteSize ||
      !value.toList.all fun char => char.isAlphanum || "_.-".toList.contains char then
    .error "cluster and node IDs must be 1..=128 ASCII letters, digits, '_', '-' or '.'"
  else
    .ok value

abbrev Members := ExtTreeMap String Member

/-- The arguments of `run`, and what it uses of libraries. -/
structure FollowConfig (V : Type) where
  codec : Codec V
  address : String → Option SocketAddress
  pre : String
  expectedCluster : Nat
  format : ClusterFormat V
  registration : Member

namespace FollowConfig

variable {V : Type} (cfg : FollowConfig V)

def inPrefix (key : String) : Bool :=
  (stripPrefix cfg.pre key).isSome

def decodeFormat (value : V) : Except String (String × Uuid) := do
  let (protocol, clusterUuid) ← cfg.codec.formatFromSlice value
  if protocol ≠ inventoryStreamProtocol || clusterUuid.isNil then
    throw "cluster inventory protocol identity differs"
  return (protocol, clusterUuid)

def formatMatches (item : Item V) : Bool :=
  item.lease = 0 &&
    match cfg.decodeFormat item.value with
    | .ok (protocol, clusterUuid) =>
      protocol = cfg.format.protocol && clusterUuid = cfg.format.clusterUuid
    | .error _ => false

def decodeMember (node : String) (item : Item V) : Except String Member := do
  if memberBytes < cfg.codec.len item.value || item.lease = 0 then
    throw "member record oversized or unleased"
  let stored ← cfg.codec.memberFromSlice item.value
  let member := { stored with lease := item.lease }
  let _ ← parseLabel node
  match cfg.address member.owner.endpoint with
  | none => throw "invalid member endpoint"
  | some address =>
    if node ≠ member.nodeId || member.epoch = 0 || member.protocol ≠ inventoryStreamProtocol ||
        member.owner.incarnation.isNil || address.unspecified || address.port = 0 then
      throw "invalid member identity"
    return member

/-- `decode`: a record that is present, or one that was deleted, with the members so far. -/
def decode (key : String) (item : Item V) (deleted : Bool) (members : Members)
    (formatValid : Bool) : Except String (Members × Bool) :=
  match stripPrefix cfg.pre key with
  | none => .error "metadata key outside cluster"
  | some suffix =>
    if memberBytes < cfg.codec.len item.value then
      .error "membership record exceeds byte limit"
    else if suffix = "format" then
      if !deleted && cfg.formatMatches item then .ok (members, true)
      else .error "cluster inventory format changed"
    else
      match stripPrefix "members/" suffix, stripPrefix "epochs/" suffix with
      | some node, _ =>
        match cfg.decodeMember node item with
        | .error error => .error error
        | .ok member =>
          let members := if deleted then members.erase node else members.insert node member
          if maxMembers < members.size then .error "metadata member limit exceeded"
          else .ok (members, formatValid)
      | none, some node =>
        match parseLabel node with
        | .error error => .error error
        | .ok _ =>
          if deleted || item.lease ≠ 0 || (cfg.codec.epochFromStr item.value).toBool = false then
            .error "invalid persistent node epoch"
          else
            .ok (members, formatValid)
      | none, none => .error "block metadata is forbidden by the inventory-stream format"

def decodePage (members : Members) (formatSeen : Bool) :
    List (String × Item V) → Except String (Members × Bool)
  | [] => .ok (members, formatSeen)
  | (key, item) :: page =>
    match cfg.decode key item false members formatSeen with
    | .error error => .error error
    | .ok (members, formatSeen) => decodePage members formatSeen page

inductive EventsOutcome where
  | rebuild (error : String)
  | fenced
  | through (members : Members) (revision : Nat)

/-- The value that `decode` is given for an event, and whether it was deleted. -/
def observed (event : KvEvent String V) : Option (Item V × Bool) :=
  match event.current with
  | some item => some (item, false)
  | none => event.previous.map fun item => (item, true)

def applyEvents (applied : Nat) (members : Members) (through : Nat) (formatValid : Bool) :
    List (KvEvent String V) → EventsOutcome
  | [] => .through members through
  | event :: events =>
    if event.revision ≤ applied then
      applyEvents applied members through formatValid events
    else
      match observed event with
      | none => .rebuild "membership delete lacks previous value"
      | some (item, deleted) =>
        match cfg.decode event.key item deleted members formatValid with
        | .error error => .rebuild error
        | .ok (members, formatValid) =>
          if !formatValid || members[cfg.registration.nodeId]? ≠ some cfg.registration then
            .fenced
          else
            applyEvents applied members (max through event.revision) formatValid events

end FollowConfig

/-- Where the task is: at the head of the loop of `run` without a snapshot or with one, in
`bootstrap`, or in `follow`. A revision of `0` in `bootstrap` is not fixed yet. In `follow`, `sent`
is the revision up to which the watch has sent events, and `awaiting` says that the registration has
been checked and a message is awaited. -/
inductive FollowPhase where
  | detached
  | reading (revision : Nat) (after : Option String) (members : Members) (formatSeen : Bool)
  | snapshot (members : Members) (applied : Nat)
  | following (members : Members) (applied sent : Nat) (awaiting : Bool)
  | stopped

/-- A call of `install_members`: its arguments, and the view it leaves. -/
structure Installed where
  revision : Nat
  members : Members
  view : MembershipView

/-- A message of the watch. A cluster of `none` is an ID that is missing. -/
structure WatchResponse (V : Type) where
  cluster : Option Nat
  canceled : Bool
  compactRevision : Nat
  created : Bool
  revision : Nat
  events : List (KvEvent String V)

/-- The coordinator, the view and the task. `installs` is not part of the program: it lists the calls
of `install_members`. -/
structure Follower (V : Type) where
  history : List (Commit String V)
  compacted : Nat
  view : MembershipView
  phase : FollowPhase
  installs : List Installed

inductive FollowStep (V : Type) where
  | commit (made : Commit String V)
  | compact (revision : Nat)
  | renew (now sentAt ttl : Nat)
  | fence
  | stop
  | loop (now : Nat)
  | page (cluster : Option Nat)
  | readFails
  | check (now : Nat)
  | timeout
  | created (cluster : Option Nat)
  | canceled (cluster : Option Nat) (compactRevision : Nat)
  | events (cluster : Option Nat) (low high : Nat)
  | disconnect
  | watchFails

namespace Follower

variable {V : Type} (cfg : FollowConfig V)

def new (owner : CacheOwner) : Follower V :=
  ⟨[], 0, .new owner, .detached, []⟩

variable (s : Follower V)

def revision : Nat :=
  s.history.length + 1

def installMembers (revision : Nat) (members : Members) : Follower V :=
  let view := s.view.replaceMembers
    (members.toList.map fun entry => (entry.2.nodeId, entry.2.owner))
  { s with view := view, installs := s.installs ++ [⟨revision, members, view⟩] }

def rebuild : Follower V :=
  { s with view := s.view.invalidateSnapshot, phase := .detached }

def finish : Follower V :=
  { s with view := s.view.invalidateSnapshot, phase := .stopped }

def completeSnapshot (revision : Nat) (members : Members) (formatSeen : Bool) : Follower V :=
  if !formatSeen || members[cfg.registration.nodeId]? ≠ some cfg.registration then
    { s with view := s.view.fence, phase := .detached }
  else
    { s.installMembers revision members with phase := .snapshot members revision }

def readPage (cluster : Option Nat) (revision : Nat) (after : Option String) (members : Members)
    (formatSeen : Bool) : Follower V :=
  if cluster = none then
    { s with phase := .detached }
  else if cluster ≠ some cfg.expectedCluster then
    { s with view := s.view.fence, phase := .detached }
  else
    let remaining := rangeAfter cfg.inPrefix (itemsAt s.history revision) after
    let page := remaining.take snapshotPage
    match cfg.decodePage members formatSeen page with
    | .error _ => { s with phase := .detached }
    | .ok (members, formatSeen) =>
      if remaining.length ≤ snapshotPage then
        s.completeSnapshot cfg revision members formatSeen
      else
        match page.getLast? with
        | none => { s with phase := .detached }
        | some last => { s with phase := .reading revision (some last.1) members formatSeen }

/-- A message in `follow`; `sent` is what the watch has sent with it. -/
def respond (members : Members) (applied sent : Nat) (response : WatchResponse V) : Follower V :=
  if response.cluster = none then
    s.rebuild
  else if response.cluster ≠ some cfg.expectedCluster then
    { s with view := s.view.fence }.finish
  else if response.canceled || 0 < response.compactRevision then
    s.rebuild
  else if response.created then
    { s with phase := .following members applied sent false }
  else
    match cfg.applyEvents applied members applied true response.events with
    | .rebuild _ => s.rebuild
    | .fenced => { s with view := s.view.fence }.finish
    | .through members through =>
      let through := if response.events.isEmpty then max response.revision through else through
      if applied < through then
        { s.installMembers through members with phase := .following members through sent false }
      else
        { s with phase := .following members applied sent false }

def sentEvents (low high : Nat) : List (KvEvent String V) :=
  (eventsIn cfg.inPrefix s.history low high).map fun event =>
    { event with previous := if s.compacted < event.revision then event.previous else none }

def next : FollowStep V → Option (Follower V)
  | .commit made => some { s with history := s.history ++ [made] }
  | .compact revision =>
    if s.compacted ≤ revision ∧ revision ≤ s.revision then some { s with compacted := revision }
    else none
  | .renew now sentAt ttl => some { s with view := (s.view.renew now sentAt ttl).2 }
  | .fence => some { s with view := s.view.fence }
  | .stop => some s.finish
  | .loop now =>
    match s.phase with
    | .detached =>
      if !s.view.registrationValid now then some s.finish
      else if cfg.pre.isEmpty then some { s with view := s.view.invalidateSnapshot }
      else some { s with
        view := s.view.invalidateSnapshot
        phase := .reading 0 none ∅ false }
    | .snapshot members applied =>
      if !s.view.registrationValid now then some s.finish
      else some { s with phase := .following members applied applied false }
    | _ => none
  | .page cluster =>
    match s.phase with
    | .reading revision after members formatSeen =>
      let revision := if revision = 0 then s.revision else revision
      if s.compacted ≤ revision then
        some (s.readPage cfg cluster revision after members formatSeen)
      else none
    | _ => none
  | .readFails =>
    match s.phase with
    | .reading _ _ _ _ => some { s with phase := .detached }
    | _ => none
  | .check now =>
    match s.phase with
    | .following members applied sent false =>
      if s.view.registrationValid now then
        some { s with phase := .following members applied sent true }
      else some s.finish
    | _ => none
  | .timeout =>
    match s.phase with
    | .following members applied sent true =>
      some { s with phase := .following members applied sent false }
    | _ => none
  | .created cluster =>
    match s.phase with
    | .following members applied sent true =>
      some (s.respond cfg members applied sent ⟨cluster, false, 0, true, s.revision, []⟩)
    | _ => none
  | .canceled cluster compactRevision =>
    match s.phase with
    | .following members applied sent true =>
      some (s.respond cfg members applied sent
        ⟨cluster, true, compactRevision, false, s.revision, []⟩)
    | _ => none
  | .events cluster low high =>
    match s.phase with
    | .following members applied sent true =>
      if low ≤ sent ∧ s.compacted ≤ low + 1 ∧ high ≤ s.revision then
        some (s.respond cfg members applied (max sent high)
          ⟨cluster, false, 0, false, high, s.sentEvents cfg low high⟩)
      else none
    | _ => none
  | .disconnect =>
    match s.phase with
    | .following members applied _ _ => some { s with phase := .snapshot members applied }
    | _ => none
  | .watchFails =>
    match s.phase with
    | .following _ _ _ _ => some s.rebuild
    | _ => none

/-- The task of a runtime with its view, against a coordinator that starts empty. -/
def machine (owner : CacheOwner) : Machine (Follower V) (FollowStep V) :=
  .ofNext (· = .new owner) (next cfg)

end Follower

end OrbitKV
