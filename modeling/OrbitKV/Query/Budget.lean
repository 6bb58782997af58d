import OrbitKV.Lib.Machine
import OrbitKV.Lib.OrderedMap
import OrbitKV.Lib.Word

/-!
# Query byte reservations

`ready` gives bytes back under the usage lock and stores the new phase only afterwards, so it is two
steps; every other method holds the locks it needs to its end and is one. Metrics are left out.
-/

namespace OrbitKV

open Std

inductive QueryMode where
  | demand
  | waitForFullPrefix
  | warmup
  | prepare
  deriving DecidableEq, Repr

inductive QueryPhase where
  | warming
  | preloading
  | prepared
  | preparing
  | ready
  | restoring
  deriving DecidableEq, Repr

def QueryPhase.speculative : QueryPhase → Bool
  | .warming | .preloading | .prepared => true
  | .preparing | .ready | .restoring => false

structure Usage where
  total : Nat
  instances : ExtTreeMap String Nat
  warming : Nat
  warmingInstances : ExtTreeMap String Nat

/-- The two limits of a `QueryBudget`, as its constructor accepts them. -/
structure QueryLimits where
  global : Nat
  perInstance : Nat
  perInstance_pos : 0 < perInstance
  perInstance_le : perInstance ≤ global
  global_lt : global < 2 ^ 63

def QueryLimits.new (global perInstance : Nat) : Except String QueryLimits :=
  if h : global = 0 ∨ perInstance = 0 ∨ global < perInstance ∨ 2 ^ 63 ≤ global then
    .error "query byte limits must satisfy 0 < instance <= global <= i64::MAX"
  else
    .ok ⟨global, perInstance, by omega, by omega, by omega⟩

/-- `QueryBudget` apart from its limits. -/
structure QueryBudget where
  usage : Usage
  totalPeak : Nat
  instancePeak : Nat

def QueryBudget.new : QueryBudget where
  usage := ⟨0, ∅, 0, ∅⟩
  totalPeak := 0
  instancePeak := 0

/-- `Reservation`, with the bytes and the phase of its state; `instanceId` is its `instance`. -/
structure Reservation where
  instanceId : String
  ns : String
  bytes : Nat
  phase : QueryPhase
  deriving DecidableEq, Repr

inductive QueryAdmission where
  | admitted (reservation : Reservation)
  | busy
  | tooLarge

abbrev Budgeted (α : Type) := Except (Failure String) α

/-! ### Usage -/

def usedBy (entries : ExtTreeMap String Nat) (instanceId : String) : Nat :=
  entries[instanceId]?.getD 0

/-- `*entries.entry(instance).or_default() += bytes`. -/
def charge (entries : ExtTreeMap String Nat) (instanceId : String) (bytes : Nat) :
    Budgeted (ExtTreeMap String Nat) := do
  let used ← addOrPanic (usedBy entries instanceId) bytes
  return entries.insert instanceId used

/-- `if let Some(used) = entries.get_mut(instance)`, with the removal of an entry at zero. -/
def uncharge (entries : ExtTreeMap String Nat) (instanceId : String) (bytes : Nat) :
    Budgeted (ExtTreeMap String Nat) :=
  match entries[instanceId]? with
  | none => .ok entries
  | some used => do
      let left ← subOrPanic used bytes
      return if left = 0 then entries.erase instanceId else entries.insert instanceId left

def Usage.releaseSpeculative (usage : Usage) (instanceId : String) (bytes : Nat) :
    Budgeted Usage := do
  let warming ← subOrPanic usage.warming bytes
  let warmingInstances ← uncharge usage.warmingInstances instanceId bytes
  return { usage with warming := warming, warmingInstances := warmingInstances }

def Usage.release (usage : Usage) (instanceId : String) (bytes : Nat) (phase : QueryPhase) :
    Budgeted Usage := do
  let total ← subOrPanic usage.total bytes
  let reduced : Usage := { usage with total := total }
  let usage ←
    if phase.speculative then reduced.releaseSpeculative instanceId bytes else .ok reduced
  let instances ← uncharge usage.instances instanceId bytes
  return { usage with instances := instances }

/-! ### Admission -/

def QueryMode.isWarming : QueryMode → Bool
  | .warmup | .prepare => true
  | .demand | .waitForFullPrefix => false

/-- The comparison with what is left of each limit, in the order of the source. -/
def Usage.exceeds (usage : Usage) (limits : QueryLimits) (instanceId : String) (bytes : Nat)
    (warming : Bool) : Budgeted Bool := do
  let free ← subOrPanic limits.global usage.total
  if free < bytes then
    return true
  else
    let instanceFree ← subOrPanic limits.perInstance (usedBy usage.instances instanceId)
    if instanceFree < bytes then
      return true
    else if warming then
      let warmFree ← subOrPanic (limits.global / 4) usage.warming
      if warmFree < bytes then
        return true
      else
        let left ← subOrPanic (limits.perInstance / 4) (usedBy usage.warmingInstances instanceId)
        return decide (left < bytes)
    else
      return false

def QueryMode.initialPhase : QueryMode → QueryPhase
  | .prepare => .preloading
  | .warmup => .warming
  | .demand | .waitForFullPrefix => .preparing

def Usage.admit (usage : Usage) (instanceId : String) (bytes : Nat) (warming : Bool) :
    Budgeted Usage := do
  let total ← addOrPanic usage.total bytes
  let instances ← charge usage.instances instanceId bytes
  let usage := { usage with total := total, instances := instances }
  if warming then
    let warmingBytes ← addOrPanic usage.warming bytes
    let warmingInstances ← charge usage.warmingInstances instanceId bytes
    return { usage with warming := warmingBytes, warmingInstances := warmingInstances }
  else
    return usage

def QueryBudget.reserve (budget : QueryBudget) (limits : QueryLimits) (instanceId ns : String)
    (bytes : Nat) (mode : QueryMode) : Budgeted (QueryAdmission × QueryBudget) := do
  let limit := if mode.isWarming then limits.perInstance / 4 else limits.perInstance
  if limit < bytes then
    return (.tooLarge, budget)
  else if mode = .warmup ∧ budget.usage.warming < budget.usage.total then
    return (.busy, budget)
  else if ← budget.usage.exceeds limits instanceId bytes mode.isWarming then
    return (.busy, budget)
  else
    let usage ← budget.usage.admit instanceId bytes mode.isWarming
    return (.admitted ⟨instanceId, ns, bytes, mode.initialPhase⟩, {
      usage := usage
      totalPeak := max budget.totalPeak usage.total
      instancePeak := max budget.instancePeak (usedBy budget.usage.instances instanceId + bytes) })

/-! ### Reservations -/

/-- A reservation behind its `Arc`: the number of handles, and the bytes and phase that a `ready` in
progress has still to store. The lock of the state is held meanwhile. -/
structure SharedReservation where
  reservation : Reservation
  storing : Option (Nat × QueryPhase)
  handles : Nat
  deriving DecidableEq, Repr

def SharedReservation.held (shared : SharedReservation) : Nat × QueryPhase :=
  shared.storing.getD (shared.reservation.bytes, shared.reservation.phase)

/-- The budget and the reservations made so far; a reservation whose last handle is dropped leaves
an empty place. -/
structure QueryLedger where
  budget : QueryBudget
  reservations : List (Option SharedReservation)

def QueryLedger.new : QueryLedger where
  budget := .new
  reservations := []

inductive QueryCall where
  | reserve (instanceId ns : String) (bytes : Nat) (mode : QueryMode)
  | ready (id bytes : Nat)
  | store (id : Nat)
  | claim (id : Nat)
  | restoring (id : Nat)
  | clone (id : Nat)
  | drop (id : Nat)
  deriving DecidableEq, Repr

namespace QueryLedger

variable (ledger : QueryLedger) (id : Nat) (shared : SharedReservation)

def live : Option SharedReservation :=
  ledger.reservations[id]?.join

def unlocked : Option SharedReservation :=
  (ledger.live id).filter (·.storing.isNone)

def put : QueryLedger :=
  { ledger with reservations := ledger.reservations.set id (some shared) }

def reserve (ledger : QueryLedger) (limits : QueryLimits) (instanceId ns : String) (bytes : Nat)
    (mode : QueryMode) : Budgeted QueryLedger := do
  let (admission, budget) ← ledger.budget.reserve limits instanceId ns bytes mode
  match admission with
  | .admitted reservation =>
    return ⟨budget, ledger.reservations ++ [some ⟨reservation, none, 1⟩]⟩
  | .busy | .tooLarge => return { ledger with budget := budget }

def readyPhase (phase : QueryPhase) : QueryPhase :=
  if phase = .preloading then .prepared else .ready

/-- `ready` up to the release of the bytes that are not needed; its error changes nothing. -/
def ready (bytes : Nat) (shared : SharedReservation) : Budgeted QueryLedger := do
  let reservation := shared.reservation
  if ¬(reservation.phase = .preparing ∨ reservation.phase = .preloading) ∨
      reservation.bytes < bytes then
    return ledger
  else
    let released ← subOrPanic reservation.bytes bytes
    let usage ← ledger.budget.usage.release reservation.instanceId released reservation.phase
    return { ledger with budget := { ledger.budget with usage := usage } }.put id
      { shared with storing := some (bytes, readyPhase reservation.phase) }

def store (state : Nat × QueryPhase) : QueryLedger :=
  ledger.put id { shared with
    reservation := { shared.reservation with bytes := state.1, phase := state.2 }
    storing := none }

def claim : Budgeted QueryLedger := do
  let reservation := shared.reservation
  if reservation.phase = .prepared then
    let usage ←
      ledger.budget.usage.releaseSpeculative reservation.instanceId reservation.bytes
    return { ledger with budget := { ledger.budget with usage := usage } }.put id
      { shared with reservation := { reservation with phase := .ready } }
  else
    return ledger

def restoring (ledger : QueryLedger) (id : Nat) (shared : SharedReservation) : QueryLedger :=
  if shared.reservation.phase = .ready then
    ledger.put id { shared with reservation := { shared.reservation with phase := .restoring } }
  else
    ledger

/-- A handle is dropped; the last one gives back what the reservation holds. -/
def drop : Budgeted QueryLedger := do
  if 1 < shared.handles then
    return ledger.put id { shared with handles := shared.handles - 1 }
  else
    let usage ← ledger.budget.usage.release shared.reservation.instanceId
      shared.reservation.bytes shared.reservation.phase
    return { budget := { ledger.budget with usage := usage }
             reservations := ledger.reservations.set id none }

/-- What a call leaves, if it can be made: its handle exists, the lock it takes is free, and a
handle that a call still borrows is not dropped. -/
def next (limits : QueryLimits) (ledger : QueryLedger) : QueryCall → Option (Budgeted QueryLedger)
  | .reserve instanceId ns bytes mode => some (ledger.reserve limits instanceId ns bytes mode)
  | .ready id bytes => (ledger.unlocked id).map (ledger.ready id bytes)
  | .store id =>
    (ledger.live id).bind fun shared =>
      shared.storing.map fun state => .ok (ledger.store id shared state)
  | .claim id => (ledger.unlocked id).map (ledger.claim id)
  | .restoring id => (ledger.unlocked id).map fun shared => .ok (ledger.restoring id shared)
  | .clone id =>
    (ledger.live id).map fun shared =>
      .ok (ledger.put id { shared with handles := shared.handles + 1 })
  | .drop id =>
    (ledger.live id).bind fun shared =>
      if shared.handles ≤ 1 ∧ shared.storing.isSome then none else some (ledger.drop id shared)

def step (limits : QueryLimits) (ledger : QueryLedger) (call : QueryCall) : Option QueryLedger :=
  (ledger.next limits call).bind Except.toOption

end QueryLedger

def queryMachine (limits : QueryLimits) : Machine QueryLedger QueryCall :=
  .ofNext (· = .new) (QueryLedger.step limits)

end OrbitKV
