import OrbitKV.Lib.Machine
import Mathlib.Data.List.Basic

/-!
# The io_uring shard

`UringShard::run` of `storage/ssd/uring.rs`. A turn is one answer of the channel, the allocator or
the ring; the ring posts completions for pushed entries only, each at most once, in any order.
`taken` and `sent` record what the shard received and answered.
-/

namespace OrbitKV

inductive IoType where
  | readv
  | writev
  deriving DecidableEq, Repr

/-- `IoCtx`; its `iovecs` are `Some` in both places that build one. -/
structure IoCtx where
  ioType : IoType
  fd : Int
  len : Nat
  offset : Nat
  iovecs : List (Nat × Nat)
  requestedBytes : Nat
  deriving DecidableEq, Repr

inductive IoError where
  | other (text : String)
  | rawOsError (code : Int)
  deriving DecidableEq, Repr

inductive IoOutcome where
  | completed
  | failed
  deriving DecidableEq, Repr

/-- The result sent for a context, and how its observation was finished. -/
structure SentResult where
  ctx : IoCtx
  result : Except IoError Nat
  outcome : IoOutcome
  actual : Option Nat

structure Sqe where
  opcode : IoType
  fd : Int
  iovecs : List (Nat × Nat)
  len : Nat
  offset : Nat
  userData : Nat
  deriving DecidableEq, Repr

structure Cqe where
  userData : Nat
  result : Int
  deriving DecidableEq, Repr

namespace IoCtx

def sqe (ctx : IoCtx) (data : Nat) : Sqe where
  opcode := ctx.ioType
  fd := ctx.fd
  iovecs := ctx.iovecs
  len := ctx.len
  offset := ctx.offset
  userData := data

def complete (ctx : IoCtx) (result : Except IoError Nat) : SentResult :=
  match result with
  | .ok bytes =>
    { ctx, result
      outcome := if bytes = ctx.requestedBytes then .completed else .failed
      actual := some bytes }
  | .error _ => { ctx, result, outcome := .failed, actual := none }

/-- The answer to a context whose entry found no place in the submission queue. -/
def refuse (ctx : IoCtx) : SentResult where
  ctx := ctx
  result := .error (.other "submission queue full")
  outcome := .failed
  actual := some 0

end IoCtx

def Cqe.sendResult (cqe : Cqe) : Except IoError Nat :=
  if cqe.result < 0 then .error (.rawOsError (-cqe.result)) else .ok cqe.result.toNat

/-- Where `run` is: in the loop that prepares entries, at `submit_and_wait`, or at one of its two
returns. -/
inductive UringPhase where
  | preparing
  | submitting
  | shutDown
  | submitFailed
  deriving DecidableEq, Repr

structure UringShard where
  inflight : Nat
  channelClosed : Bool
  phase : UringPhase
  /-- The entries pushed and not yet completed, with the contexts boxed at their `userData`. -/
  submitted : List (Sqe × IoCtx)
  taken : List IoCtx
  sent : List SentResult

inductive UringTurn where
  /-- The channel yields a context, which is boxed at `data`; the queue takes its entry or not. -/
  | received (ctx : IoCtx) (data : Nat) (pushed : Bool)
  /-- `recv` fails or `try_recv` finds the channel disconnected. -/
  | disconnected
  | empty
  /-- The condition of the loop does not hold. -/
  | prepared
  | completions (batch : List Cqe)
  | submitError (error : String) (batch : List Cqe)

namespace UringShard

def new : UringShard where
  inflight := 0
  channelClosed := false
  phase := .preparing
  submitted := []
  taken := []
  sent := []

/-- The condition of the loop that prepares entries. -/
def Receiving (ioDepth : Nat) (s : UringShard) : Prop :=
  s.phase = .preparing ∧ s.inflight < ioDepth ∧ s.channelClosed = false

instance (ioDepth : Nat) (s : UringShard) : Decidable (s.Receiving ioDepth) :=
  inferInstanceAs (Decidable (_ ∧ _))

def push (s : UringShard) (ctx : IoCtx) (data : Nat) (pushed : Bool) : UringShard :=
  if pushed then
    { s with
      taken := s.taken ++ [ctx]
      submitted := s.submitted ++ [(ctx.sqe data, ctx)]
      inflight := s.inflight + 1 }
  else { s with taken := s.taken ++ [ctx], sent := s.sent ++ [ctx.refuse] }

/-- Behind the loop: return, go round again, or on to `submit_and_wait`. -/
def afterLoop (s : UringShard) : UringShard :=
  { s with
    phase :=
      if s.channelClosed = true ∧ s.inflight = 0 then .shutDown
      else if s.inflight = 0 then .preparing
      else .submitting }

/-- One completion: its box is recovered and its context completed. There is no such step for a
completion that names no leaked box. -/
def recover (send : Cqe → Except IoError Nat) (s : UringShard) (cqe : Cqe) : Option UringShard :=
  if cqe.userData = 0 then some s
  else
    match s.submitted.find? (·.1.userData = cqe.userData) with
    | none => none
    | some entry =>
      some
        { s with
          submitted := s.submitted.erase entry
          sent := s.sent ++ [entry.2.complete (send cqe)] }

/-- The completions of a batch, none of which has the address zero: no entry is pushed with it. -/
def drain (send : Cqe → Except IoError Nat) (s : UringShard) (batch : List Cqe) :
    Option UringShard :=
  if ∀ cqe ∈ batch, cqe.userData ≠ 0 then batch.foldlM (recover send) s else none

def next (ioDepth : Nat) (s : UringShard) : UringTurn → Option UringShard
  | .received ctx data pushed =>
    if s.Receiving ioDepth ∧ data ≠ 0 ∧ ∀ entry ∈ s.submitted, entry.1.userData ≠ data then
      some (s.push ctx data pushed)
    else none
  | .disconnected =>
    if s.Receiving ioDepth then some (afterLoop { s with channelClosed := true }) else none
  | .empty => if s.Receiving ioDepth ∧ s.inflight ≠ 0 then some s.afterLoop else none
  | .prepared =>
    if s.phase = .preparing ∧ ¬s.Receiving ioDepth then some s.afterLoop else none
  | .completions batch =>
    if s.phase = .submitting then
      (s.drain Cqe.sendResult batch).map fun s' =>
        { s' with inflight := s'.inflight - batch.length, phase := .preparing }
    else none
  | .submitError error batch =>
    if s.phase = .submitting then
      (s.drain (fun _ => .error (.other ("io_uring submit failed: " ++ error))) batch).map
        fun s' => { s' with phase := .submitFailed }
    else none

def machine (ioDepth : Nat) : Machine UringShard UringTurn :=
  .ofNext (· = new) (next ioDepth)

end UringShard

end OrbitKV
