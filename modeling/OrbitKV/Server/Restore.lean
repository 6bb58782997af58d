import OrbitKV.Channel.Completion

/-!
# Sources of restore grants

`dispatch_restore` admits an operation and installs the owner of its pinned sources; the task
`reap_sources` publishes their plans and gives the sources back, or keeps them where an engine may
still be reading.

One pass of the loop of `reap_sources` is a call of its own, with the branch that `select!` takes as
its argument; the task's variables wait in the Manager between two passes. The environment decides
which condition the event counters are in and how often a retry loop still goes around; a thread
that would go around more often is never scheduled again. Hash maps are ordered maps; metrics,
timelines and notifications are left out.
-/

namespace OrbitKV

open Std

def localPlanMetadataBytes : Nat := 64 * 1024 * 1024

/-- The name of a grant: the operation it was prepared for, and a running number. -/
structure SourceKey where
  operation : Nat
  serial : Nat
  deriving DecidableEq, Repr

/-- A `RawRestoreGrant`: pinned sources, with the part of the plan that is due and the others. -/
structure RawRestoreGrant where
  key : SourceKey
  plan : List UInt8
  later : List (List UInt8)
  deriving DecidableEq, Repr

namespace RawRestoreGrant

def more (grant : RawRestoreGrant) : Bool :=
  !grant.later.isEmpty

def planBytes (grant : RawRestoreGrant) : Nat :=
  ((grant.plan :: grant.later).map List.length).sum

/-- `advance_plan`, with the grant that it leaves if there is another part. -/
def advancePlan (grant : RawRestoreGrant) : Option RawRestoreGrant :=
  match grant.later with
  | [] => none
  | plan :: later => some { grant with plan := plan, later := later }

end RawRestoreGrant

/-- An owner of sources, with the permits of the metadata budget that it holds. -/
structure SourceGrant where
  source : RawRestoreGrant
  metadata : Nat
  deriving DecidableEq, Repr

def SourceGrant.id (owner : SourceGrant) : Nat :=
  owner.source.key.operation

/-- The variables of `reap_sources`. -/
structure ReapTask where
  grants : ExtTreeMap Nat SourceGrant
  pending : List Nat
  connected : Bool

def ReapTask.new : ReapTask := ⟨∅, [], true⟩

structure Manager where
  area : Area
  /-- The failure of the event counters, if they fail. -/
  fault : Option String
  attempts : Nat
  /-- The session has its `LocalGrants`, which hold the sender. -/
  isOpen : Bool
  queue : List SourceGrant
  isReceiving : Bool
  /-- None while a pass of the loop runs, and after the task has ended. -/
  task : Option ReapTask
  metadata : Nat
  nextSerial : Nat
  /-- The sources that were given back. -/
  released : List SourceKey
  /-- The sources that are kept until the Manager exits. -/
  quarantined : List SourceKey
  /-- The sources whose plan was granted last. -/
  granting : Nat → Option SourceKey
  /-- `claim_local` has returned a plan, and `drained` was not called since. -/
  claimed : Nat → Bool

def Manager.new : Manager where
  area := Area.new
  fault := none
  attempts := 1
  isOpen := true
  queue := []
  isReceiving := true
  task := some ReapTask.new
  metadata := localPlanMetadataBytes
  nextSerial := 0
  released := []
  quarantined := []
  granting := fun _ => none
  claimed := fun _ => false

inductive ManagerAccess where
  /-- An access to the area, for the publication of the plan of some sources or for none. -/
  | area (access : Access) (publishing : Option SourceKey)
  | environment
  | setEnvironment (fault : Option String) (attempts : Nat)
  | prepare (id : Nat) (plan : List UInt8) (later : List (List UInt8))
  | isOpen
  | closeSession
  | acquire (bytes : Nat)
  | restoreMetadata (permits : Nat)
  | send (owner : SourceGrant)
  | receive
  | closeReceiver
  | takeTask
  | putTask (task : ReapTask)
  | release (source : RawRestoreGrant)
  | quarantine (owner : SourceGrant)
  | claimed (id : Nat)
  | reporting (id : Nat)

inductive ChannelItem where
  | nothing
  | owner (owner : SourceGrant)
  | closed

@[reducible] def ManagerAccess.Answer : ManagerAccess → Type
  | .area access _ => access.Answer
  | .environment => Option String × Nat
  | .prepare .. => RawRestoreGrant
  | .isOpen | .acquire _ | .send _ => Bool
  | .receive => ChannelItem
  | .closeReceiver => List SourceGrant
  | .takeTask => Option ReapTask
  | _ => Unit

namespace Manager

def grantingAfter (m : Manager) : Access → Option SourceKey → Nat → Option SourceKey
  | .exchange slot old new _, some key =>
    if m.area.tags slot = old then Function.update m.granting (new / 16) (some key)
    else m.granting
  | _, _ => m.granting

def send (m : Manager) (owner : SourceGrant) : Bool × Manager :=
  if m.isReceiving ∧ m.queue.length < restoreCompletionSlots then
    (true, { m with queue := m.queue ++ [owner] })
  else
    (false, m)

def receive (m : Manager) : ChannelItem × Manager :=
  match m.queue with
  | owner :: queue => (.owner owner, { m with queue := queue })
  | [] => (if m.isOpen then .nothing else .closed, m)

def acquire (m : Manager) (bytes : Nat) : Bool × Manager :=
  if bytes ≤ m.metadata then (true, { m with metadata := m.metadata - bytes }) else (false, m)

end Manager

def ManagerAccess.perform : (access : ManagerAccess) → Manager → access.Answer × Manager
  | .area access publishing, m =>
    ((access.perform m.area).1,
      { m with
        area := (access.perform m.area).2
        granting := m.grantingAfter access publishing })
  | .environment, m => ((m.fault, m.attempts), m)
  | .setEnvironment fault attempts, m => ((), { m with fault := fault, attempts := attempts })
  | .prepare id plan later, m =>
    (⟨⟨id, m.nextSerial⟩, plan, later⟩, { m with nextSerial := m.nextSerial + 1 })
  | .isOpen, m => (m.isOpen, m)
  | .closeSession, m => ((), { m with isOpen := false })
  | .acquire bytes, m => m.acquire bytes
  | .restoreMetadata permits, m => ((), { m with metadata := m.metadata + permits })
  | .send owner, m => m.send owner
  | .receive, m => m.receive
  | .closeReceiver, m => (m.queue, { m with queue := [], isReceiving := false })
  | .takeTask, m => (m.task, { m with task := none })
  | .putTask task, m => ((), { m with task := some task })
  | .release source, m => ((), { m with released := m.released ++ [source.key] })
  | .quarantine owner, m => ((), { m with quarantined := m.quarantined ++ [owner.source.key] })
  | .claimed id, m => ((), { m with claimed := Function.update m.claimed id true })
  | .reporting id, m => ((), { m with claimed := Function.update m.claimed id false })

/-- Code of the Manager. It has no errors: it only fails to be scheduled. -/
abbrev ManagerOp (α : Type) : Type := Process ManagerAccess ManagerAccess.Answer Unit α

def Op.over {α : Type} (publishing : Option SourceKey) :
    Op α → Process ManagerAccess ManagerAccess.Answer CompletionError α
  | .done value => .done value
  | .fail error => .fail error
  | .again => .again
  | .act access next => .act (.area access publishing) fun answer => Op.over publishing (next answer)

namespace ManagerOp

def environment : ManagerOp (Option String × Nat) := .act .environment .done
def setEnvironment (fault : Option String) (attempts : Nat) : ManagerOp Unit :=
  .act (.setEnvironment fault attempts) .done
def prepare (id : Nat) (plan : List UInt8) (later : List (List UInt8)) :
    ManagerOp RawRestoreGrant := .act (.prepare id plan later) .done
def isOpen : ManagerOp Bool := .act .isOpen .done
def closeSession : ManagerOp Unit := .act .closeSession .done
def acquire (bytes : Nat) : ManagerOp Bool := .act (.acquire bytes) .done
def restoreMetadata (permits : Nat) : ManagerOp Unit := .act (.restoreMetadata permits) .done
def send (owner : SourceGrant) : ManagerOp Bool := .act (.send owner) .done
def receive : ManagerOp ChannelItem := .act .receive .done
def closeReceiver : ManagerOp (List SourceGrant) := .act .closeReceiver .done
def takeTask : ManagerOp (Option ReapTask) := .act .takeTask .done
def putTask (task : ReapTask) : ManagerOp Unit := .act (.putTask task) .done
def quarantine (owner : SourceGrant) : ManagerOp Unit := .act (.quarantine owner) .done
def claimed (id : Nat) : ManagerOp Unit := .act (.claimed id) .done
def reporting (id : Nat) : ManagerOp Unit := .act (.reporting id) .done

def release (source : RawRestoreGrant) : ManagerOp Unit := .act (.release source) .done

def method {α : Type} (publishing : Option SourceKey) (body : Option String → Op α) :
    ManagerOp (Except CompletionError α) := do
  let (fault, attempts) ← environment
  Process.attempt () (Op.over publishing (body fault)) attempts

def call {α : Type} (body : Op α) : ManagerOp (Except CompletionError α) :=
  method none fun _ => body

/-- `records.revoke(id).unwrap_or(false)`. -/
def revoke (id : Nat) : ManagerOp Bool := do
  match ← method none (RestoreCompletions.revoke id) with
  | .ok revoked => return revoked
  | .error _ => return false

def reject (id : Nat) (message : String) : ManagerOp Unit := do
  let _ ← method none (RestoreCompletions.reject id message)

end ManagerOp

open ManagerOp

/-! ### Owners -/

namespace SourceGrant

def isSafeRevoked (owner : SourceGrant) : ManagerOp Bool := do
  if ← revoke owner.id then
    return true
  else
    match ← call (RestoreCompletions.state owner.id) with
    | .ok .partDrained | .ok .drained | .ok .reaped | .ok .acknowledged => return true
    | _ => return false

def isSafe (owner : SourceGrant) : ManagerOp Bool := do
  match ← call (RestoreCompletions.state owner.id) with
  | .ok .granted | .ok .grantedMore => owner.isSafeRevoked
  | .ok .active | .ok .activeMore | .error _ => return false
  | .ok _ => return true

def drop (owner : SourceGrant) : ManagerOp Unit := do
  if ← owner.isSafe then
    release owner.source
    restoreMetadata owner.metadata
  else
    quarantine owner

end SourceGrant

def dropAll : List SourceGrant → ManagerOp Unit
  | [] => return ()
  | owner :: owners => do
      owner.drop
      dropAll owners

def install (id : Nat) (source : RawRestoreGrant) : ManagerOp Unit := do
  if 2 ^ 32 ≤ source.planBytes then
    release source
    reject id "restore plan metadata size overflow"
  else if ← acquire source.planBytes then
    let owner : SourceGrant := ⟨source, source.planBytes⟩
    if ← send owner then
      return ()
    else
      owner.drop
      reject id "restore grant admission is full or closed"
  else
    release source
    reject id "restore session plan metadata budget exhausted"

/-- What `execute_restore` gives for an operation. -/
inductive Prepared where
  | isLocal (plan : List UInt8) (later : List (List UInt8))
  /-- `none` if the outcome is lost. -/
  | isManaged (outcome : Option RestoreResult)
  | failed (message : String)

def publishManaged (id : Nat) (outcome : Option RestoreResult) : ManagerOp Unit := do
  match ← call (RestoreCompletions.startManaged id) with
  | .ok _ =>
    match outcome with
    | some result =>
      let _ ← call (RestoreCompletions.complete id result)
    | none => return ()
  | .error _ => return ()

/-- `dispatch_restore`, from the claim on. -/
def dispatchRestore (id : Nat) (prepared : Prepared) : ManagerOp Unit := do
  match ← call (RestoreCompletions.claim id) with
  | .ok _ =>
    match prepared with
    | .isLocal plan later =>
      let source ← prepare id plan later
      if ← isOpen then
        install id source
      else
        release source
        reject id "restore session is closed"
    | .isManaged outcome => publishManaged id outcome
    | .failed message => reject id message
  | .error _ => return ()

/-! ### The task -/

namespace ReapTask

def closePending (task : ReapTask) : List Nat → ManagerOp ReapTask
  | [] => return { task with pending := [] }
  | id :: ids => do
      match task.grants[id]? with
      | some owner =>
        owner.drop
        reject id "restore session closed during preparation"
        closePending { task with grants := task.grants.erase id } ids
      | none =>
        reject id "restore session closed during preparation"
        closePending task ids

def revokeAll : List Nat → ManagerOp Unit
  | [] => return ()
  | id :: ids => do
      let _ ← revoke id
      revokeAll ids

variable (task : ReapTask) (id : Nat)

/-- The sources of a drained or revoked grant are given back, with its timing for the metrics. -/
def finish (owner : SourceGrant) : ManagerOp ReapTask := do
  let _ ← call (RestoreCompletions.drainTiming id)
  release owner.source
  let _ ← method none (RestoreCompletions.reap id)
  restoreMetadata owner.metadata
  return { task with grants := task.grants.erase id }

def retireFinished (state : GrantState) : ManagerOp ReapTask := do
  match task.grants[id]? with
  | some owner =>
    if state = .drained then
      let _ ← call (RestoreCompletions.drainSucceeded id)
      task.finish id owner
    else
      task.finish id owner
  | none => return task

def retirePart : ManagerOp ReapTask := do
  if task.connected then
    match ← call (RestoreCompletions.continueLocal id) with
    | .ok _ =>
      match task.grants[id]? with
      | some owner =>
        match owner.source.advancePlan with
        | some source =>
          return { task with
            grants := task.grants.insert id { owner with source := source }
            pending := task.pending ++ [id] }
        | none =>
          release owner.source
          restoreMetadata owner.metadata
          reject id "missing next Restore plan part"
          return { task with grants := task.grants.erase id }
      | none =>
        reject id "missing next Restore plan part"
        return task
    | .error _ => return task
  else
    let _ ← revoke id
    return task

def retire (state : GrantState) : ManagerOp ReapTask := do
  match state with
  | .active | .activeMore =>
    let _ ← call (RestoreCompletions.releasePlan id)
    return task
  | .partDrained =>
    let _ ← call (RestoreCompletions.releasePlan id)
    task.retirePart id
  | .drained | .revoked =>
    let _ ← call (RestoreCompletions.releasePlan id)
    task.retireFinished id state
  | _ => return task

def retireAll (task : ReapTask) : List (Nat × GrantState) → ManagerOp ReapTask
  | [] => return task
  | (id, state) :: updates => do
      let task ← task.retire id state
      retireAll task updates

/-- `publish_local` with the part of the plan that is due. -/
def publish (source : RawRestoreGrant) : ManagerOp (Except CompletionError Bool) :=
  method (some source.key) fun _ => RestoreCompletions.publishLocal id source.plan source.more

def publishPending (task : ReapTask) : List Nat → ManagerOp ReapTask
  | [] => return { task with pending := [] }
  | id :: ids => do
      match task.grants[id]? with
      | none => publishPending task ids
      | some owner =>
        match ← publish id owner.source with
        | .ok true => publishPending task ids
        | .ok false =>
          owner.drop
          let _ ← method none (RestoreCompletions.finishCancelled id)
          publishPending { task with grants := task.grants.erase id } ids
        | .error .planFull => return { task with pending := id :: ids }
        | .error error =>
          owner.drop
          reject id error.toString
          publishPending { task with grants := task.grants.erase id } ids

/-- The task returns or is dropped, and with it its owners and those in the channel. -/
def stop : ManagerOp Unit := do
  dropAll (task.grants.toList.map Prod.snd)
  dropAll (← closeReceiver)

/-- The part of the loop behind `select!`. -/
def turn : ManagerOp Unit := do
  match ← method none RestoreCompletions.managerUpdates with
  | .ok updates =>
    let task ← task.retireAll updates
    let task ← task.publishPending task.pending
    if !task.connected && task.grants.isEmpty then task.stop else putTask task
  | .error _ => task.stop

def accept (owner : SourceGrant) : ManagerOp ReapTask := do
  if let some old := task.grants[owner.id]? then
    old.drop
  return { task with
    grants := task.grants.insert owner.id owner
    pending := task.pending ++ [owner.id] }

def disconnect : ManagerOp ReapTask := do
  let task ← { task with connected := false }.closePending task.pending
  revokeAll (task.grants.toList.map Prod.fst)
  return task

end ReapTask

/-- A branch of `select!`; a task may also be dropped while it waits there. -/
inductive SelectEvent where
  | received
  | notified
  | notificationFailed
  | tick
  | aborted
  deriving DecidableEq, Repr

def reapSources (event : SelectEvent) : ManagerOp Unit := do
  match ← takeTask with
  | none => return ()
  | some task =>
    match event with
    | .received =>
      if task.connected then
        match ← receive with
        | .nothing => putTask task
        | .owner owner => (← task.accept owner).turn
        | .closed => (← task.disconnect).turn
      else
        putTask task
    | .notified => task.turn
    | .tick => if task.grants.isEmpty then putTask task else task.turn
    | .notificationFailed | .aborted => task.stop

/-! ### Calls -/

inductive ManagerCall where
  /-- A method of the completions that the engine or the Manager calls. -/
  | single (call : RestoreCall)
  | dispatch (id : Nat) (prepared : Prepared)
  | reap (event : SelectEvent)
  | closeSession
  | setEnvironment (fault : Option String) (attempts : Nat)

namespace ManagerCall

def singleBody : RestoreCall → ManagerOp (Except CompletionError RestoreReply)
  | .claimLocal id fault drainFault => do
      let outcome ← ManagerOp.call (RestoreCompletions.claimLocal id fault drainFault)
      if let .ok (some _) := outcome then
        claimed id
      return outcome.map .plan
  | .drained id result timing fault => do
      reporting id
      ManagerOp.call (RestoreCall.drained id result timing fault).body
  | call => ManagerOp.call call.body

def body : ManagerCall → ManagerOp (Except CompletionError RestoreReply)
  | .single call => singleBody call
  | .dispatch id prepared => do
      dispatchRestore id prepared
      return .ok .unit
  | .reap event => do
      reapSources event
      return .ok .unit
  | .closeSession => do
      ManagerOp.closeSession
      return .ok .unit
  | .setEnvironment fault attempts => do
      ManagerOp.setEnvironment fault attempts
      return .ok .unit

/-- The operation whose plan the engine claims or whose drain it reports. -/
def engine? : ManagerCall → Option Nat
  | .single (.claimLocal id ..) | .single (.drained id ..) => some id
  | _ => none

def isPublish : ManagerCall → Bool
  | .single (.publishLocal ..) => true
  | _ => false

end ManagerCall

abbrev ManagerSystem : Type :=
  System Manager ManagerAccess ManagerAccess.Answer Unit (Except CompletionError RestoreReply)
    ManagerCall

namespace ManagerSystem

/-- The engine claims a plan of the operation or reports a drain at the moment. -/
def isBusy (s : ManagerSystem) (id : Nat) : Bool :=
  s.threads.any fun thread =>
    match thread.progress with
    | .running _ => thread.call.engine? == some id
    | .replied _ => false

/-- Only `reap_sources` publishes plans, and the claims and reports of the engine for one operation
follow each other. -/
def mayStart (s : ManagerSystem) (call : ManagerCall) : Bool :=
  !call.isPublish && call.engine?.all fun id => !s.isBusy id

def IsNew (s : ManagerSystem) : Prop :=
  s = ⟨Manager.new, []⟩

end ManagerSystem

def managerMachine : Machine ManagerSystem (SystemStep ManagerCall) :=
  .ofNext ManagerSystem.IsNew
    (System.next ManagerCall.body ManagerAccess.perform ManagerSystem.mayStart)

end OrbitKV
