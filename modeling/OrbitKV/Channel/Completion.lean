import Std.Data.ExtTreeMap
import OrbitKV.Lib.Chunks
import OrbitKV.Lib.FirstFit
import OrbitKV.Lib.Process

/-!
# Restore grants

The shared area of an engine and the Manager: records with a word that holds an operation id and the
state of its grant, and a bank of plan bytes. Every method of `RestoreCompletions` is a process;
accesses of other calls may come between its own. The code holds the mutex up to the return of
`publish_local`, which allows fewer interleavings.

Words of text or plan bytes are lists of eight bytes. The failure of a write to an event counter is
an argument. The log records what has happened to the state words.
-/

namespace OrbitKV

open Std

def restoreCompletionSlots : Nat := 1024

def restoreErrorBytes : Nat := 88

def restorePlanBytes : Nat := 1024 * 1024

def dirtyWords : Nat := restoreCompletionSlots / 64

def maxOperationId : Nat := 2 ^ 60 - 1

abbrev Slot : Type := Fin restoreCompletionSlots

structure RestoreTiming where
  readinessNs : Nat
  dispatchedNs : Nat
  dequeuedNs : Nat
  claimedNs : Nat
  submittedNs : Nat
  drainedNs : Nat
  deriving DecidableEq, Repr

def RestoreTiming.valid (timing : RestoreTiming) : Bool :=
  timing.readinessNs ≤ timing.dispatchedNs &&
    timing.dispatchedNs ≤ timing.dequeuedNs &&
    timing.dequeuedNs ≤ timing.claimedNs &&
    timing.claimedNs ≤ timing.drainedNs &&
    0 < timing.drainedNs &&
    timing.drainedNs ≤ 86400000000000 &&
    (timing.submittedNs == 0 ||
      (timing.claimedNs ≤ timing.submittedNs && timing.submittedNs ≤ timing.drainedNs))

inductive GrantState where
  | reserved
  | preparing
  | cancelRequested
  | granted
  | active
  | drained
  | revoked
  | managed
  | reaped
  | acknowledged
  | grantedMore
  | activeMore
  | partDrained
  deriving DecidableEq, Repr

namespace GrantState

def code : GrantState → Nat
  | .reserved => 0
  | .preparing => 1
  | .cancelRequested => 2
  | .granted => 3
  | .active => 4
  | .drained => 5
  | .revoked => 6
  | .managed => 7
  | .reaped => 8
  | .acknowledged => 9
  | .grantedMore => 10
  | .activeMore => 11
  | .partDrained => 12

def decode (tag : Nat) : Option GrantState :=
  match tag % 16 with
  | 0 => some .reserved
  | 1 => some .preparing
  | 2 => some .cancelRequested
  | 3 => some .granted
  | 4 => some .active
  | 5 => some .drained
  | 6 => some .revoked
  | 7 => some .managed
  | 8 => some .reaped
  | 9 => some .acknowledged
  | 10 => some .grantedMore
  | 11 => some .activeMore
  | 12 => some .partDrained
  | _ => none

theorem code_lt (state : GrantState) : state.code < 16 := by
  cases state <;> decide

end GrantState

/-- The state word `(id << STATE_BITS) | state`. -/
def tagOf (id : Nat) (state : GrantState) : Nat :=
  id * 16 + state.code

@[simp] theorem tagOf_div (id : Nat) (state : GrantState) : tagOf id state / 16 = id := by
  have hcode := state.code_lt
  unfold tagOf
  omega

@[simp] theorem tagOf_mod (id : Nat) (state : GrantState) : tagOf id state % 16 = state.code := by
  have hcode := state.code_lt
  unfold tagOf
  omega

@[simp] theorem decode_tagOf (id : Nat) (state : GrantState) :
    GrantState.decode (tagOf id state) = some state := by
  rw [GrantState.decode, tagOf_mod]
  cases state <;> rfl

@[simp] theorem tagOf_inj {id id' : Nat} {state state' : GrantState} :
    tagOf id state = tagOf id' state' ↔ id = id' ∧ state = state' := by
  constructor
  · intro heq
    have hid := congrArg (· / 16) heq
    have hstate := congrArg GrantState.decode heq
    simp only [tagOf_div, decode_tagOf, Option.some.injEq] at hid hstate
    exact ⟨hid, hstate⟩
  · rintro ⟨rfl, rfl⟩
    rfl

inductive CompletionError where
  | io (message : String)
  | full
  | planFull
  | exhausted
  | stale (id : Nat)
  | invalidPayload
  deriving DecidableEq, Repr

def CompletionError.toString : CompletionError → String
  | .io message => "restore grant memory operation failed: " ++ message
  | .full => "all restore grant slots are unconsumed"
  | .planFull => "restore plan bank exhausted"
  | .exhausted => "restore operation ids exhausted"
  | .stale id => "unknown, consumed, or invalid-state restore operation " ++ Nat.repr id
  | .invalidPayload => "invalid restore grant payload"

abbrev RestoreResult : Type := Except String Unit

inductive RestoreState where
  | pending
  | succeeded
  | failed
  deriving DecidableEq, Repr

structure RestoreResponse where
  operationId : Nat
  state : RestoreState
  message : String
  deriving DecidableEq, Repr

/-! ### The area -/

inductive Field where
  | planOffset
  | planLength
  | claimed
  | result
  deriving DecidableEq, Repr

/-- A successful exchange of a state word; `note` is the result that it makes final. -/
structure Exchange where
  slot : Slot
  old : Nat
  new : Nat
  note : Option RestoreResult

structure Area where
  nextOperation : Nat
  tags : Slot → Nat
  fields : Slot → Field → Nat
  texts : Slot → Nat → List UInt8
  timings : Slot → Option RestoreTiming
  bank : Nat → List UInt8
  dirty : Slot → Bool
  plans : ExtTreeMap Nat Span
  log : List Exchange

/-- The area as `create` leaves it, with words that are zero. -/
def Area.new : Area where
  nextOperation := 1
  tags := fun _ => 0
  fields := fun _ _ => 0
  texts := fun _ _ => List.replicate 8 0
  timings := fun _ => none
  bank := fun _ => List.replicate 8 0
  dirty := fun _ => false
  plans := ∅
  log := []

def slotOf (id : Nat) : Slot :=
  ⟨id % restoreCompletionSlots, Nat.mod_lt _ (by decide)⟩

/-- `is_char_boundary`: a prefix of the characters has so many bytes. -/
def isCharBoundary (text : String) (position : Nat) : Bool :=
  text.toList.inits.any fun characters => (String.ofList characters).utf8ByteSize == position

/-- The loop of `write_result` down to a boundary. -/
def boundaryBelow (text : String) : Nat → Nat
  | 0 => 0
  | position + 1 =>
    if isCharBoundary text (position + 1) then position + 1 else boundaryBelow text position

/-- The bytes of the message that `write_result` stores. -/
def storedMessage (result : RestoreResult) : List UInt8 :=
  let message := match result with
    | .ok _ => ""
    | .error message => message
  let stop := boundaryBelow message (min message.utf8ByteSize restoreErrorBytes)
  message.toByteArray.data.toList.take stop

def RestoreResult.failed (result : RestoreResult) : Nat :=
  match result with
  | .ok _ => 0
  | .error _ => 1

/-- Where `publish_local` puts a plan of so many bytes. -/
def freePlace (plans : ExtTreeMap Nat Span) (size : Nat) : Nat :=
  firstFit size ((plans.toList.map Prod.snd).mergeSort fun a b => a.start ≤ b.start) 0

inductive Access where
  | fetchNext
  | loadTag (slot : Slot)
  | exchange (slot : Slot) (old new : Nat) (note : Option RestoreResult)
  | loadField (slot : Slot) (field : Field)
  | storeField (slot : Slot) (field : Field) (value : Nat)
  | loadText (slot : Slot) (length : Nat)
  | writeResult (slot : Slot) (result : RestoreResult)
  | storeTiming (slot : Slot) (timing : Option RestoreTiming)
  | loadTiming (slot : Slot)
  | loadPlan (offset length : Nat)
  | placePlan (id : Nat) (plan : List UInt8)
  | removePlan (id : Nat)
  | markDirty (slot : Slot)
  | takeDirty (index : Nat)

@[reducible] def Access.Answer : Access → Type
  | .fetchNext => Option Nat
  | .loadTag _ => Nat
  | .exchange .. => Bool
  | .loadField .. => Nat
  | .storeField .. => Unit
  | .loadText .. => List UInt8
  | .writeResult .. => Unit
  | .storeTiming .. => Unit
  | .loadTiming _ => Option RestoreTiming
  | .loadPlan .. => List UInt8
  | .placePlan .. => Except CompletionError Nat
  | .removePlan _ => Unit
  | .markDirty _ => Unit
  | .takeDirty _ => List Slot

namespace Area

def fetchNext (area : Area) : Option Nat × Area :=
  if area.nextOperation ≠ 0 ∧ area.nextOperation ≤ maxOperationId then
    (some area.nextOperation, { area with nextOperation := area.nextOperation + 1 })
  else
    (none, area)

def exchange (area : Area) (slot : Slot) (old new : Nat) (note : Option RestoreResult) :
    Bool × Area :=
  if area.tags slot = old then
    (true, { area with
      tags := Function.update area.tags slot new
      log := area.log ++ [⟨slot, old, new, note⟩] })
  else
    (false, area)

def storeField (area : Area) (slot : Slot) (field : Field) (value : Nat) : Area :=
  { area with
    fields := Function.update area.fields slot (Function.update (area.fields slot) field value) }

def writeResult (area : Area) (slot : Slot) (result : RestoreResult) : Area :=
  let bytes := storedMessage result
  { area with
    texts := Function.update area.texts slot (storeBytes (area.texts slot) 0 bytes) }.storeField
      slot .result (bytes.length * 2 + result.failed)

/-- The section of `publish_local` under the mutex, up to the words of the record: the plan is
written to the bank and its range is taken. -/
def placePlan (area : Area) (id : Nat) (plan : List UInt8) : Except CompletionError Nat × Area :=
  let size := wordCount plan.length * 8
  if area.plans.contains id then
    (.error (.stale id), area)
  else
    let start := freePlace area.plans size
    if restorePlanBytes < start + size then
      (.error .planFull, area)
    else
      (.ok start, { area with
        bank := storeBytes area.bank (start / 8) plan
        plans := area.plans.insert id ⟨start, start + size⟩ })

/-- The slots in one word of the bitset, in order; the word is cleared. -/
def takeDirty (area : Area) (index : Nat) : List Slot × Area :=
  ((List.finRange restoreCompletionSlots).filter fun slot => slot.val / 64 = index && area.dirty slot,
    { area with dirty := fun slot => slot.val / 64 ≠ index && area.dirty slot })

end Area

def Access.perform : (access : Access) → Area → access.Answer × Area
  | .fetchNext, area => area.fetchNext
  | .loadTag slot, area => (area.tags slot, area)
  | .exchange slot old new note, area => area.exchange slot old new note
  | .loadField slot field, area => (area.fields slot field, area)
  | .storeField slot field value, area => ((), area.storeField slot field value)
  | .loadText slot length, area => (loadBytes (area.texts slot) 0 length, area)
  | .writeResult slot result, area => ((), area.writeResult slot result)
  | .storeTiming slot timing, area =>
    ((), { area with timings := Function.update area.timings slot timing })
  | .loadTiming slot, area => (area.timings slot, area)
  | .loadPlan offset length, area => (loadBytes area.bank (offset / 8) length, area)
  | .placePlan id plan, area => area.placePlan id plan
  | .removePlan id, area => ((), { area with plans := area.plans.erase id })
  | .markDirty slot, area => ((), { area with dirty := Function.update area.dirty slot true })
  | .takeDirty index, area => area.takeDirty index

abbrev Op (α : Type) : Type := Process Access Access.Answer CompletionError α

namespace Op

def fetchNext : Op (Option Nat) := .act .fetchNext .done
def loadTag (slot : Slot) : Op Nat := .act (.loadTag slot) .done
def exchange (slot : Slot) (old new : Nat) (note : Option RestoreResult) : Op Bool :=
  .act (.exchange slot old new note) .done
def loadField (slot : Slot) (field : Field) : Op Nat := .act (.loadField slot field) .done
def storeField (slot : Slot) (field : Field) (value : Nat) : Op Unit :=
  .act (.storeField slot field value) .done
def loadText (slot : Slot) (length : Nat) : Op (List UInt8) :=
  .act (.loadText slot length) .done
def writeResult (slot : Slot) (result : RestoreResult) : Op Unit :=
  .act (.writeResult slot result) .done
def storeTiming (slot : Slot) (timing : Option RestoreTiming) : Op Unit :=
  .act (.storeTiming slot timing) .done
def loadTiming (slot : Slot) : Op (Option RestoreTiming) := .act (.loadTiming slot) .done
def loadPlan (offset length : Nat) : Op (List UInt8) := .act (.loadPlan offset length) .done
def placePlan (id : Nat) (plan : List UInt8) : Op (Except CompletionError Nat) :=
  .act (.placePlan id plan) .done
def removePlan (id : Nat) : Op Unit := .act (.removePlan id) .done
def markDirty (slot : Slot) : Op Unit := .act (.markDirty slot) .done
def takeDirty (index : Nat) : Op (List Slot) := .act (.takeDirty index) .done

end Op

def Op.run {α : Type} (op : Op α) (area : Area) : Option (Except CompletionError α) × Area :=
  Process.exec Access.perform op area

section Run

variable {α : Type} (area : Area)

@[simp] theorem run_done (value : α) : Op.run (.done value) area = (some (.ok value), area) := rfl

@[simp] theorem run_fail (error : CompletionError) :
    Op.run (.fail error : Op α) area = (some (.error error), area) := rfl

@[simp] theorem run_loadTag (slot : Slot) (rest : Nat → Op α) :
    (Op.loadTag slot >>= rest).run area = (rest (area.tags slot)).run area := rfl

@[simp] theorem run_exchange (slot : Slot) (old new : Nat) (note : Option RestoreResult)
    (rest : Bool → Op α) : (Op.exchange slot old new note >>= rest).run area =
      (rest (area.exchange slot old new note).1).run (area.exchange slot old new note).2 := rfl

@[simp] theorem run_loadField (slot : Slot) (field : Field) (rest : Nat → Op α) :
    (Op.loadField slot field >>= rest).run area = (rest (area.fields slot field)).run area := rfl

@[simp] theorem run_storeField (slot : Slot) (field : Field) (value : Nat) (rest : Unit → Op α) :
    (Op.storeField slot field value >>= rest).run area =
      (rest ()).run (area.storeField slot field value) := rfl

@[simp] theorem run_loadPlan (offset length : Nat) (rest : List UInt8 → Op α) :
    (Op.loadPlan offset length >>= rest).run area =
      (rest (loadBytes area.bank (offset / 8) length)).run area := rfl

@[simp] theorem run_placePlan (id : Nat) (plan : List UInt8)
    (rest : Except CompletionError Nat → Op α) : (Op.placePlan id plan >>= rest).run area =
      (rest (area.placePlan id plan).1).run (area.placePlan id plan).2 := rfl

@[simp] theorem run_removePlan (id : Nat) (rest : Unit → Op α) :
    (Op.removePlan id >>= rest).run area = (rest ()).run { area with plans := area.plans.erase id } :=
  rfl

@[simp] theorem run_markDirty (slot : Slot) (rest : Unit → Op α) :
    (Op.markDirty slot >>= rest).run area =
      (rest ()).run { area with dirty := Function.update area.dirty slot true } := rfl

theorem run_bind {β : Type} (op : Op α) (rest : α → Op β) : (op >>= rest).run area =
    Process.follow Access.perform rest (op.run area) :=
  Process.exec_bind Access.perform op rest area

end Run

/-! ### The methods -/

namespace RestoreCompletions

open Op

variable (id : Nat) (source : GrantState) (fault : Option String)

def signal : Op Unit :=
  match fault with
  | none => .done ()
  | some message => .fail (.io message)

def offset : Op Slot :=
  if id = 0 ∨ maxOperationId < id then .fail (.stale id) else .done (slotOf id)

def tryTransition (target : GrantState) (note : Option RestoreResult) : Op Bool := do
  let slot ← offset id
  exchange slot (tagOf id source) (tagOf id target) note

def transition (target : GrantState) (note : Option RestoreResult) : Op Unit := do
  if ← tryTransition id source target note then
    return ()
  else
    .fail (.stale id)

def state (id : Nat) : Op GrantState := do
  let slot ← offset id
  let tag ← loadTag slot
  if tag / 16 ≠ id then
    .fail (.stale id)
  else
    match GrantState.decode tag with
    | some state => .done state
    | none => .fail .invalidPayload

def reserveWithin : Nat → Op Nat
  | 0 => .fail .full
  | attempts + 1 => do
      match ← fetchNext with
      | none => .fail .exhausted
      | some id =>
        let slot ← offset id
        let tag ← loadTag slot
        if (tag = 0 ∨ tag % 16 = GrantState.acknowledged.code) ∧ tag / 16 < id then
          if ← exchange slot tag (tagOf id .reserved) none then
            return id
          else
            reserveWithin attempts
        else
          reserveWithin attempts

def reserve : Op Nat :=
  reserveWithin restoreCompletionSlots

def claim : Op Unit :=
  transition id .reserved .preparing none

def cancel : Op Bool := do
  match ← state id with
  | .reserved =>
    if ← tryTransition id .reserved .acknowledged none then return true else .again
  | .preparing =>
    if ← tryTransition id .preparing .cancelRequested none then return false else .again
  | .acknowledged => .fail (.stale id)
  | _ => return false

def startManaged : Op Unit := do
  let source ← state id
  if source = .preparing ∨ source = .cancelRequested then
    if ← tryTransition id source .managed none then return () else .again
  else
    .fail (.stale id)

def dirty : Op Unit := do
  markDirty (slotOf id)
  signal fault

/-- What `publish_local` does after its exchange has failed. -/
def unpublish : Op Bool := do
  -- an error of this load leaves the range taken
  let current ← state id
  removePlan id
  if current = .cancelRequested then return false else .fail (.stale id)

def publishLocal (plan : List UInt8) (more : Bool) : Op Bool := do
  if (← state id) = .cancelRequested then
    return false
  else if (← state id) ≠ .preparing then
    .fail (.stale id)
  else if plan = [] ∨ restorePlanBytes < plan.length then
    .fail .planFull
  else
    match ← placePlan id plan with
    | .error error => .fail error
    | .ok start =>
      let slot ← offset id
      storeField slot .planOffset start
      storeField slot .planLength plan.length
      storeField slot .claimed 0
      if ← tryTransition id .preparing (if more then .grantedMore else .granted) none then
        return true
      else
        unpublish id

def drained (id : Nat) (result : RestoreResult) (timing : Option RestoreTiming)
    (fault : Option String) : Op Bool := do
  let source ← state id
  if source ≠ .active ∧ source ≠ .activeMore then
    .fail (.stale id)
  else
    let terminal := source = .active ∨ result.failed = 1
    let slot ← offset id
    storeTiming slot
      (timing.filter fun timing => timing.valid && (result.failed == 1 || timing.submittedNs != 0))
    writeResult slot result
    transition id source (if terminal then .drained else .partDrained)
      (if terminal then some result else none)
    dirty id fault
    return terminal

/-- The reading of the plan in `claim_local`, after the exchange. -/
def readPlan : Op (Except CompletionError (List UInt8)) := do
  let slot ← offset id
  let start ← loadField slot .planOffset
  let length ← loadField slot .planLength
  if length = 0 ∨ start % 8 ≠ 0 ∨ restorePlanBytes < length ∨ restorePlanBytes - length < start then
    return .error .invalidPayload
  else
    let plan ← loadPlan start length
    storeField slot .claimed 1
    markDirty slot
    match fault with
    | none => return .ok plan
    | some message => return .error (.io message)

/-- The rest of `claim_local` for the state that was found. -/
def claimFrom (target : GrantState) (fault drainFault : Option String) :
    Op (Option (List UInt8)) := do
  transition id source target none
  match ← readPlan id fault with
  | .ok plan => return some plan
  | .error error =>
    let _ ← drained id (.error ("Restore plan rejected before execution: " ++ error.toString))
      none drainFault
    .fail error

/-- `drainFault` is the failure of the second signal, if the plan is rejected. -/
def claimLocal (drainFault : Option String) : Op (Option (List UInt8)) := do
  match ← state id with
  | .granted => claimFrom id .granted .active fault drainFault
  | .grantedMore => claimFrom id .grantedMore .activeMore fault drainFault
  | .acknowledged => .fail (.stale id)
  | _ => return none

def gatherUpdates : List Slot → Op (List (Nat × GrantState))
  | [] => .done []
  | slot :: slots => do
      let tag ← loadTag slot
      if tag = 0 then
        gatherUpdates slots
      else
        match GrantState.decode tag with
        | none => .fail .invalidPayload
        | some state => return (tag / 16, state) :: (← gatherUpdates slots)

def gatherWords : List Nat → Op (List (Nat × GrantState))
  | [] => .done []
  | index :: indices => do
      let updates ← gatherUpdates (← takeDirty index)
      return updates ++ (← gatherWords indices)

/-- `fault` is the failure of the read from the event counter. -/
def managerUpdates : Op (List (Nat × GrantState)) := do
  signal fault
  gatherWords (List.range dirtyWords)

def releasePlan : Op Unit := do
  let slot ← offset id
  match ← state id with
  | .revoked | .drained | .partDrained => removePlan id
  | .active | .activeMore =>
    if (← loadField slot .claimed) = 1 then removePlan id else .fail (.stale id)
  | _ => .fail (.stale id)

def continueLocal : Op Unit :=
  transition id .partDrained .preparing none

def revokeFrom : Op Bool := do
  if ← tryTransition id source .revoked none then
    dirty id fault
    return true
  else
    .again

def revoke : Op Bool := do
  match ← state id with
  | .granted => revokeFrom id .granted fault
  | .grantedMore => revokeFrom id .grantedMore fault
  | .partDrained => revokeFrom id .partDrained fault
  | .active | .activeMore | .drained | .revoked | .reaped | .acknowledged => return false
  | _ => .fail (.stale id)

def drainTiming : Op (Option RestoreTiming) := do
  if (← state id) ≠ .drained then
    .fail (.stale id)
  else
    let slot ← offset id
    let timing ← loadTiming slot
    if (← state id) ≠ .drained then .fail (.stale id) else return timing.filter RestoreTiming.valid

def drainSucceeded : Op Bool := do
  match ← state id with
  | .drained =>
    let slot ← offset id
    return (← loadField slot .result) % 2 = 0
  | .revoked => return false
  | _ => .fail (.stale id)

def revokedResult : RestoreResult := .error "restore grant revoked"

def reap : Op Unit := do
  match ← state id with
  | .drained =>
    removePlan id
    transition id .drained .reaped none
    signal fault
  | .revoked =>
    removePlan id
    let slot ← offset id
    writeResult slot revokedResult
    transition id .revoked .reaped (some revokedResult)
    signal fault
  | _ => .fail (.stale id)

def reject (message : String) (fault : Option String) : Op Unit := do
  let source ← state id
  if source = .preparing ∨ source = .cancelRequested then
    let slot ← offset id
    writeResult slot (.error message)
    if ← tryTransition id source .reaped (some (.error message)) then signal fault else .again
  else
    .fail (.stale id)

def finishCancelled : Op Unit :=
  reject id "restore preparation cancelled" fault

def complete (result : RestoreResult) : Op Unit := do
  if (← state id) ≠ .managed then
    .fail (.stale id)
  else
    let slot ← offset id
    writeResult slot result
    transition id .managed .reaped (some result)

def poll : Op RestoreResponse := do
  let slot ← offset id
  let current ← state id
  if current = .acknowledged then
    .fail (.stale id)
  else if current ≠ .reaped then
    return ⟨id, .pending, ""⟩
  else
    let result ← loadField slot .result
    let length := result / 2
    if restoreErrorBytes < length then
      .fail .invalidPayload
    else
      let bytes ← loadText slot length
      transition id .reaped .acknowledged none
      match String.fromUTF8? ⟨bytes.toArray⟩ with
      | none => .fail .invalidPayload
      | some message =>
        return ⟨id, if result % 2 = 0 then .succeeded else .failed, message⟩

end RestoreCompletions

/-! ### Calls -/

inductive RestoreCall where
  | reserve
  | cancel (id : Nat)
  | claimLocal (id : Nat) (fault drainFault : Option String)
  | drained (id : Nat) (result : RestoreResult) (timing : Option RestoreTiming)
      (fault : Option String)
  | poll (id : Nat)
  | claim (id : Nat)
  | startManaged (id : Nat)
  | publishLocal (id : Nat) (plan : List UInt8) (more : Bool)
  | continueLocal (id : Nat)
  | revoke (id : Nat) (fault : Option String)
  | releasePlan (id : Nat)
  | drainTiming (id : Nat)
  | drainSucceeded (id : Nat)
  | reap (id : Nat) (fault : Option String)
  | reject (id : Nat) (message : String) (fault : Option String)
  | complete (id : Nat) (result : RestoreResult)
  | managerUpdates (fault : Option String)
  | state (id : Nat)
  deriving DecidableEq

inductive RestoreReply where
  | unit
  | flag (value : Bool)
  | operation (id : Nat)
  | plan (bytes : Option (List UInt8))
  | response (response : RestoreResponse)
  | timing (timing : Option RestoreTiming)
  | updates (updates : List (Nat × GrantState))
  | state (state : GrantState)
  deriving DecidableEq

namespace RestoreCall

def id? : RestoreCall → Option Nat
  | .reserve | .managerUpdates _ => none
  | .cancel id | .claimLocal id .. | .drained id .. | .poll id | .claim id | .startManaged id
  | .publishLocal id .. | .continueLocal id | .revoke id _ | .releasePlan id | .drainTiming id
  | .drainSucceeded id | .reap id _ | .reject id .. | .complete id _ | .state id => some id

def body : RestoreCall → Op RestoreReply
  | .reserve => .operation <$> RestoreCompletions.reserve
  | .cancel id => .flag <$> RestoreCompletions.cancel id
  | .claimLocal id fault drainFault =>
    .plan <$> RestoreCompletions.claimLocal id fault drainFault
  | .drained id result timing fault =>
    .flag <$> RestoreCompletions.drained id result timing fault
  | .poll id => .response <$> RestoreCompletions.poll id
  | .claim id => (fun _ => .unit) <$> RestoreCompletions.claim id
  | .startManaged id => (fun _ => .unit) <$> RestoreCompletions.startManaged id
  | .publishLocal id plan more => .flag <$> RestoreCompletions.publishLocal id plan more
  | .continueLocal id => (fun _ => .unit) <$> RestoreCompletions.continueLocal id
  | .revoke id fault => .flag <$> RestoreCompletions.revoke id fault
  | .releasePlan id => (fun _ => .unit) <$> RestoreCompletions.releasePlan id
  | .drainTiming id => .timing <$> RestoreCompletions.drainTiming id
  | .drainSucceeded id => .flag <$> RestoreCompletions.drainSucceeded id
  | .reap id fault => (fun _ => .unit) <$> RestoreCompletions.reap id fault
  | .reject id message fault => (fun _ => .unit) <$> RestoreCompletions.reject id message fault
  | .complete id result => (fun _ => .unit) <$> RestoreCompletions.complete id result
  | .managerUpdates fault => .updates <$> RestoreCompletions.managerUpdates fault
  | .state id => .state <$> RestoreCompletions.state id

end RestoreCall

abbrev RestoreSystem : Type :=
  System Area Access Access.Answer CompletionError RestoreReply RestoreCall

def RestoreSystem.IsNew (s : RestoreSystem) : Prop :=
  s = ⟨Area.new, []⟩

def restoreMachine : Machine RestoreSystem (SystemStep RestoreCall) :=
  .ofNext RestoreSystem.IsNew (System.next RestoreCall.body Access.perform fun _ _ => true)

/-! ### Whole calls in a sequence -/

/-- An area with the calls that were made on it, one after the other, and what they returned. -/
structure RestoreHistory where
  area : Area
  replies : List (RestoreCall × Option (Except CompletionError RestoreReply))

def RestoreHistory.next (s : RestoreHistory) (call : RestoreCall) : Option RestoreHistory :=
  some ⟨(call.body.run s.area).2, s.replies ++ [(call, (call.body.run s.area).1)]⟩

def RestoreHistory.IsNew (s : RestoreHistory) : Prop :=
  s = ⟨Area.new, []⟩

def serialRestoreMachine : Machine RestoreHistory RestoreCall :=
  .ofNext RestoreHistory.IsNew RestoreHistory.next

end OrbitKV
