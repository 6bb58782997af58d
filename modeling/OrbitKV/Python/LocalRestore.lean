import OrbitKV.Lib.Machine
import OrbitKV.Storage.Inventory

/-!
# The engine-local Restore worker

`LocalRestoreWorker` of `local_restore.rs`. `start_restore` and `shutdown` run under the client's
local lock; the handle is dropped when no call is under way. What `advance` returns is left open.

`accepted`, `ready` and `finished` record what has happened; no step reads them but to number a job.
-/

namespace OrbitKV

/-- `MAX_PENDING`, of the counter and of the channel. -/
def maxPending : Nat := 1024

/-- `fetch_sub(1)` on a `usize`, which wraps. -/
def fetchSubOne (count : Nat) : Nat :=
  if count = 0 then u64Bound - 1 else count - 1

inductive WorkerPhase where
  /-- About to `try_recv`. -/
  | receiving
  | advancing (index : Nat)
  /-- The result of a job is set; its place in `pending` is given back next. -/
  | completing (index : Nat)
  /-- About to look at `stopping`. -/
  | checking
  | waiting
  /-- Out of the loop. -/
  | leaving
  | releasing
  | signalling
  | reaping
  | ended
  deriving DecidableEq, Repr

inductive CallerPhase where
  | free
  /-- In `reserve`, counted; the executor is asked next. -/
  | reserving
  /-- `reserve` has returned `Ok`; the Manager is asked for a grant. -/
  | reserved
  /-- In `cancel_reservation`. -/
  | cancelling
  /-- In `shutdown`: `wait_drained`. -/
  | draining
  /-- In `shutdown`: `stopping` is stored next. -/
  | stopping
  /-- In `shutdown`: until the worker has released its resources. -/
  | awaiting
  /-- The handle is being dropped: `stopping` is stored, the sender not dropped yet. -/
  | dropping
  | gone
  /-- The channel was closed under a `send`. -/
  | aborted
  deriving DecidableEq, Repr

structure LocalWorker where
  pending : Nat
  executor : Bool
  tensors : Bool
  stopping : Bool
  released : Bool
  queue : List Nat
  active : List Nat
  disconnected : Bool
  worker : WorkerPhase
  caller : CallerPhase
  accepted : Nat
  ready : List Nat
  finished : Nat
  deriving DecidableEq

def swapRemove {α : Type} (xs : List α) (index : Nat) : List α :=
  match xs.getLast? with
  | none => []
  | some last => (xs.set index last).dropLast

namespace LocalWorker

def new : LocalWorker where
  pending := 0
  executor := true
  tensors := true
  stopping := false
  released := false
  queue := []
  active := []
  disconnected := false
  worker := .receiving
  caller := .free
  accepted := 0
  ready := []
  finished := 0

/-- The reservations that were counted and are neither submitted nor cancelled. -/
def reservations (s : LocalWorker) : Nat :=
  match s.caller with
  | .reserving | .reserved | .cancelling | .aborted => 1
  | _ => 0

end LocalWorker

/-! ### The calls on the handle -/

inductive LocalStep where
  | reserve
  /-- Whether the layer events are valid and the stream could be waited for. -/
  | ready (valid : Bool)
  | submit
  /-- The Manager gives no grant. -/
  | refuse
  | cancelReservation
  | shutdown
  | drained
  | stop
  | shutdownDone
  | drop
  | disconnect
  /-- One `try_recv` of the worker. -/
  | receive
  /-- What `advance` returns for the job in turn: a response, or `None`. -/
  | advance (response : Bool)
  | complete
  | check
  | wake
  | releaseExecutor
  | releaseTensors
  | signal
  | reaped
  deriving DecidableEq, Repr

namespace LocalWorker

/-- The caller's side: `reserve`, `submit`, `cancel_reservation`, `shutdown` and `Drop`. -/
def call (s : LocalWorker) : LocalStep → Option LocalWorker
  | .reserve =>
    if s.caller = .free then
      if s.pending < maxPending then
        some { s with pending := s.pending + 1, caller := .reserving }
      else some s
    else none
  | .ready valid =>
    if s.caller = .reserving then
      some { s with caller := if s.executor && valid then .reserved else .cancelling }
    else none
  | .submit =>
    if s.caller = .reserved then
      if s.worker = .ended then some { s with caller := .aborted }
      else if s.queue.length < maxPending then
        some { s with
          queue := s.queue ++ [s.accepted], accepted := s.accepted + 1, caller := .free }
      else none
    else none
  | .refuse => if s.caller = .reserved then some { s with caller := .cancelling } else none
  | .cancelReservation =>
    if s.caller = .cancelling then
      some { s with pending := fetchSubOne s.pending, caller := .free }
    else none
  | .shutdown => if s.caller = .free then some { s with caller := .draining } else none
  | .drained =>
    if s.caller = .draining ∧ s.pending = 0 then some { s with caller := .stopping } else none
  | .stop =>
    if s.caller = .stopping then some { s with stopping := true, caller := .awaiting } else none
  | .shutdownDone =>
    if s.caller = .awaiting ∧ s.released then some { s with caller := .free } else none
  | .drop =>
    if s.caller = .free then some { s with stopping := true, caller := .dropping } else none
  | .disconnect => if s.caller = .dropping then some { s with caller := .gone } else none
  | _ => none

def work (s : LocalWorker) : LocalStep → Option LocalWorker
  | .receive =>
    if s.worker = .receiving then
      match s.queue with
      | job :: rest => some { s with queue := rest, active := s.active ++ [job] }
      | [] =>
        some { s with
          disconnected := s.disconnected || s.caller = .gone, worker := .advancing 0 }
    else none
  | .advance response =>
    match s.worker with
    | .advancing index =>
      match s.active[index]? with
      | none => some { s with worker := .checking }
      | some job =>
        if response then
          some { s with
            active := swapRemove s.active index
            ready := s.ready ++ [job]
            worker := .completing index }
        else some { s with worker := .advancing (index + 1) }
    | _ => none
  | .complete =>
    match s.worker with
    | .completing index =>
      some { s with
        pending := fetchSubOne s.pending
        finished := s.finished + 1
        worker := .advancing index }
    | _ => none
  | .check =>
    if s.worker = .checking then
      if (s.disconnected || s.stopping) && s.active.isEmpty then
        some { s with worker := .leaving }
      else some { s with worker := .waiting }
    else none
  | .wake => if s.worker = .waiting then some { s with worker := .receiving } else none
  | .releaseExecutor =>
    if s.worker = .leaving then some { s with executor := false, worker := .releasing } else none
  | .releaseTensors =>
    if s.worker = .releasing then some { s with tensors := false, worker := .signalling }
    else none
  | .signal =>
    if s.worker = .signalling then some { s with released := true, worker := .reaping } else none
  | .reaped => if s.worker = .reaping then some { s with worker := .ended } else none
  | _ => none

def next (s : LocalWorker) (l : LocalStep) : Option LocalWorker :=
  (s.call l).or (s.work l)

/-- The steps when the handle is dropped only once the worker has received every job. -/
def receivedNext (s : LocalWorker) (l : LocalStep) : Option LocalWorker :=
  if l = .drop ∧ s.queue ≠ [] then none else s.next l

end LocalWorker

def localMachine : Machine LocalWorker LocalStep :=
  .ofNext (· = .new) LocalWorker.next

def receivedMachine : Machine LocalWorker LocalStep :=
  .ofNext (· = .new) LocalWorker.receivedNext

end OrbitKV
