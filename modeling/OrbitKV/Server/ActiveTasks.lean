import OrbitKV.Lib.Machine
import OrbitKV.Lib.Word

/-!
# Admission and draining of tasks

`ActiveTasks` of `endpoint/mod.rs`: one word with a closed bit over a counter, and a `Notify`. Every
load, exchange and notification is a step. The server calls `close` before `drain`, and `drain` once.
-/

namespace OrbitKV

/-- `ACTIVE_TASKS_CLOSED`; a smaller remainder by it is what `ACTIVE_TASKS_COUNT` leaves. -/
def activeTasksClosed : Nat := 2 ^ 63

/-- Where `drain` is: at the head of its loop, behind `notified()`, at `drained.await`, or registered
with the `Notify`. -/
inductive DrainPhase where
  | notCalled
  | entering
  | listening
  | polling
  | waiting
  | returned
  deriving DecidableEq

structure ActiveTasks where
  state : Nat
  /-- `Notify` keeps one permit when nobody waits. -/
  permit : Bool
  drain : DrainPhase
  /-- The variable `current` of each `try_admit` under way. -/
  admitting : List Nat
  tasks : Nat
  /-- Drops that have taken the counter to zero and not yet called `notify_one`. -/
  notifying : Nat
  deriving DecidableEq

namespace ActiveTasks

def new : ActiveTasks := ⟨0, false, .notCalled, [], 0, 0⟩

inductive Step where
  | tryAdmit
  /-- `compare_exchange_weak`, which may also fail where it could succeed. -/
  | exchange (index : Nat) (spurious : Bool)
  | close
  | drain
  | load
  | poll
  | drop
  | notifyOne
  deriving DecidableEq

variable (s : ActiveTasks)

def isClosed (word : Nat) : Bool :=
  word / activeTasksClosed % 2 = 1

def exchange (index current : Nat) (spurious : Bool) : ActiveTasks :=
  if isClosed current ∨ current % activeTasksClosed = activeTasksClosed - 1 then
    { s with admitting := s.admitting.eraseIdx index }
  else if s.state = current ∧ spurious = false then
    { s with
      state := current + 1
      tasks := s.tasks + 1
      admitting := s.admitting.eraseIdx index }
  else
    { s with admitting := s.admitting.set index s.state }

/-- A load of `drain`; `next` is where it goes on if a task is active. -/
def load (next : DrainPhase) : ActiveTasks :=
  { s with drain := if s.state % activeTasksClosed = 0 then .returned else next }

/-- `Drop for ActiveTask`, up to its `fetch_sub`, which wraps around. -/
def drop : ActiveTasks :=
  { s with
    state := if s.state = 0 then 2 ^ 64 - 1 else s.state - 1
    tasks := s.tasks - 1
    notifying := s.notifying + if s.state % activeTasksClosed = 1 then 1 else 0 }

def next : Step → Option ActiveTasks
  | .tryAdmit => some { s with admitting := s.admitting ++ [s.state] }
  | .exchange index spurious =>
    s.admitting[index]?.map fun current => s.exchange index current spurious
  | .close =>
    some { s with state := if isClosed s.state then s.state else s.state + activeTasksClosed }
  | .drain =>
    if s.drain = .notCalled ∧ isClosed s.state then some { s with drain := .entering } else none
  | .load =>
    match s.drain with
    | .entering => some (s.load .listening)
    | .listening => some (s.load .polling)
    | _ => none
  | .poll =>
    if s.drain = .polling then
      some { s with permit := false, drain := if s.permit then .entering else .waiting }
    else
      none
  | .drop => if s.tasks = 0 then none else some s.drop
  | .notifyOne =>
    if s.notifying = 0 then
      none
    else if s.drain = .waiting then
      some { s with notifying := s.notifying - 1, drain := .entering }
    else
      some { s with notifying := s.notifying - 1, permit := true }

def machine : Machine ActiveTasks Step :=
  .ofNext (· = new) next

end ActiveTasks

end OrbitKV
