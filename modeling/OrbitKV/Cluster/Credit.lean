import OrbitKV.Cluster.Stream

/-!
# Flow control of the inventory stream

`FrameSender` and the acknowledgements of its client. Pacing, the shared permits and the response
queue only delay a frame that has its credit, or stop the session.
-/

namespace OrbitKV

def streamCreditBytes : Nat := 1024 * 1024

structure ClientControl where
  consumedFrameId : Nat := 0
  appliedSequence : Nat := 0
  invalid : Option String := none
  deriving DecidableEq

def ClientControl.acknowledge (state : ClientControl) (consumed applied : Nat) : ClientControl :=
  if consumed < state.consumedFrameId ∨ applied < state.appliedSequence then
    { state with invalid := some "inventory acknowledgement moved backwards" }
  else
    { state with consumedFrameId := consumed, appliedSequence := applied }

structure OutstandingFrame where
  frameId : Nat
  bytes : Nat
  deriving DecidableEq

/-- Where `send` is with a frame: before its credit, or between its credit and `push_back`. -/
inductive SendPhase where
  | idle
  | crediting (frame : OutstandingFrame)
  | queueing (frame : OutstandingFrame)
  | stopped (error : String)
  deriving DecidableEq

structure FrameSender where
  control : ClientControl := {}
  nextFrame : Nat := 1
  outstandingBytes : Nat := 0
  outstanding : List OutstandingFrame := []
  phase : SendPhase := .idle
  deriving DecidableEq

inductive SenderStep where
  | frame (bytes : Nat)
  | release
  | credit
  | queue
  | ack (consumed applied : Nat)
  | duplicateOpen
  | stop (error : String)

namespace FrameSender

variable (s : FrameSender)

def releaseAcknowledged : Except String FrameSender :=
  match s.control.invalid with
  | some error => .error error
  | none =>
    if s.nextFrame ≤ s.control.consumedFrameId then
      .error "inventory client acknowledged an unsent frame"
    else
      let released := s.outstanding.takeWhile (·.frameId ≤ s.control.consumedFrameId)
      .ok { s with
        outstandingBytes := released.foldl (· - ·.bytes) s.outstandingBytes
        outstanding := s.outstanding.dropWhile (·.frameId ≤ s.control.consumedFrameId) }

/-- A step of `frame`, of `send`, of the loop of `serve_source`, which releases frames between two of
them, or of the task that reads the client. A turn of the credit loop tests the bytes from before it
releases frames; the last one releases too. -/
def next (step : SenderStep) : Option FrameSender :=
  match step, s.phase with
  | .frame bytes, .idle =>
    if s.nextFrame + 1 = 2 ^ 64 then
      some { s with phase := .stopped "inventory frame ID exhausted" }
    else
      some { s with
        nextFrame := s.nextFrame + 1
        phase :=
          if messageBytes < bytes then
            .stopped "inventory frame exceeds encoded message limit"
          else
            .crediting ⟨s.nextFrame, bytes⟩ }
  | .release, .idle =>
    match s.releaseAcknowledged with
    | .error error => some { s with phase := .stopped error }
    | .ok sender => some sender
  | .credit, .crediting frame =>
    match s.releaseAcknowledged with
    | .error error => some { s with phase := .stopped error }
    | .ok sender =>
      let fits := s.outstandingBytes + frame.bytes ≤ streamCreditBytes
      some { sender with phase := if fits then .queueing frame else .crediting frame }
  | .queue, .queueing frame =>
    some { s with
      outstandingBytes := s.outstandingBytes + frame.bytes
      outstanding := s.outstanding ++ [frame]
      phase := .idle }
  | .ack consumed applied, _ =>
    some { s with control := s.control.acknowledge consumed applied }
  | .duplicateOpen, _ =>
    some { s with control.invalid := some "duplicate or empty inventory control frame" }
  | .stop error, _ => some { s with phase := .stopped error }
  | _, _ => none

def machine : Machine FrameSender SenderStep :=
  .ofNext (· = {}) next

end FrameSender

end OrbitKV
