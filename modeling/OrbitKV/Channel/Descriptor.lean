import OrbitKV.Channel.Arena
import OrbitKV.Lib.Machine

/-!
# Descriptor calls

The clients of one Manager and their calls through the descriptor arena (`bootstrap.rs`,
`call_descriptor` of `client.rs`, `consume_descriptor` and the dispatchers of the endpoint). The
Manager is one thread, clients are processes, and every store and load of a call is a step; `accept`
reads and resets its slot in one. A call may end with a transport error at any point, a reply or a
session may be lost, and another thread of a client may close it.

`calls`, `consumed`, `answered`, `returned` and `disturbed` record what has happened; no step reads
them.
-/

namespace OrbitKV

open Function

/-! ### Messages -/

/-- The codes of `CommandCode` whose request is in the arena. -/
inductive DescriptorCode where
  | queryBundle
  | restore
  | publish
  | release
  | cancelQuery
  | observeCompletion
  | queryShards
  | cancelShardQuery
  | releaseShardQuery
  deriving DecidableEq, Repr

inductive StatusCode where
  | ok
  | loading
  | miss
  | invalid
  | staleSession
  | staleGeneration
  | internal
  deriving DecidableEq, Repr

inductive BootstrapError where
  | noFreeSlots (count : Nat)
  | generationExhausted (slot : Nat)
  | clientTokenMismatch
  | slotMismatch (expected actual : Nat)
  | unexpectedGeneration (expected actual : Nat)
  | arena (error : ArenaError)
  deriving DecidableEq, Repr

def ArenaError.status : ArenaError → StatusCode
  | .staleGeneration .. => .staleGeneration
  | .invalidOffset .. | .payloadTooLarge .. | .lengthMismatch .. | .zeroGeneration => .invalid
  | .tooSmall .. | .fieldOverflow .. | .slotOutOfRange .. | .concurrentWrite .. => .internal

def BootstrapError.status : BootstrapError → StatusCode
  | .unexpectedGeneration .. => .staleGeneration
  | .clientTokenMismatch | .slotMismatch .. => .staleSession
  | .noFreeSlots .. | .generationExhausted .. | .arena .. => .invalid

/-- A command; `call` is the request the transport pairs a reply with, `clientToken` is `arg0`. -/
structure Command where
  call : Nat
  code : DescriptorCode
  clientToken : Nat
  descriptor : DescriptorRef

/-- A reply to `call`, on its way to the client; `consumed` is the flag in `value1`. -/
structure Response where
  call : Nat
  clientToken : Nat
  status : StatusCode
  consumed : Bool
  descriptor : DescriptorRef

/-! ### Sessions -/

structure BootstrapSession where
  slotIndex : Nat
  clientToken : Nat
  nextRequestGeneration : Nat

namespace BootstrapSession

def validateRequest (session : BootstrapSession) (descriptor : DescriptorRef)
    (clientToken descriptorSlot : Nat) : Except BootstrapError Unit :=
  if clientToken ≠ session.clientToken then .error .clientTokenMismatch
  else if descriptorSlot ≠ session.slotIndex then
    .error (.slotMismatch session.slotIndex descriptorSlot)
  else if descriptor.generation ≠ session.nextRequestGeneration then
    .error (.unexpectedGeneration session.nextRequestGeneration descriptor.generation)
  else .ok ()

def completeRequest (session : BootstrapSession) : Except BootstrapError BootstrapSession :=
  match boundedAdd session.nextRequestGeneration 2 with
  | none => .error (.generationExhausted session.slotIndex)
  | some generation => .ok { session with nextRequestGeneration := generation }

end BootstrapSession

/-! ### Clients -/

structure Request where
  call : Nat
  code : DescriptorCode
  payload : Payload

/-- How far the call that holds `call_lock` has come. -/
inductive CallPhase where
  | idle
  /-- The client was not poisoned. -/
  | entered (request : Request)
  /-- In `write_request`. -/
  | writing (request : Request) (write : PendingWrite)
  /-- The command was sent. -/
  | waiting (request : Request) (descriptor : DescriptorRef)
  /-- In `read_response`, after its checks. -/
  | reading (request : Request) (descriptor response : DescriptorRef) (slot : Nat) (reader : Reader)

/-- The client side of a session, with the state of its only call. `disturbed`: a store into its
slot was made neither by it nor for it. -/
structure BootstrapClient where
  slotIndex : Nat
  nextGeneration : Nat
  poisoned : Bool
  phase : CallPhase
  disturbed : Bool

structure DescriptorCall where
  clientToken : Nat
  code : DescriptorCode
  payload : Payload
  deriving DecidableEq

/-- What the history keeps of an exchange: the call, the client, the generation of the request and
the payload that was read, or left as the response. -/
structure DescriptorExchange where
  call : Nat
  clientToken : Nat
  generation : Nat
  payload : Payload
  deriving DecidableEq

namespace BootstrapClient

variable (client : BootstrapClient)

def completeRequest (request : DescriptorRef) : Except BootstrapError BootstrapClient :=
  if client.nextGeneration ≠ request.generation then
    .error (.unexpectedGeneration client.nextGeneration request.generation)
  else
    match boundedAdd client.nextGeneration 2 with
    | none => .error (.generationExhausted client.slotIndex)
    | some generation => .ok { client with nextGeneration := generation }

def finish : BootstrapClient :=
  { client with phase := .idle }

/-- `close`: no later call passes its first check. -/
def close : BootstrapClient :=
  { client with poisoned := true }

/-- The end of a call that completes its request, or closes the client if it cannot. -/
def settle (request : DescriptorRef) : BootstrapClient × Bool :=
  match client.completeRequest request with
  | .error _ => (client.close.finish, false)
  | .ok completed => (completed.finish, true)

end BootstrapClient

/-- The checks of `read_response`, up to the slot that is read. -/
def ArenaLayout.responseSlot (layout : ArenaLayout) (slotIndex : Nat)
    (request response : DescriptorRef) : Except BootstrapError Nat :=
  match boundedAdd request.generation 1 with
  | none => .error (.generationExhausted slotIndex)
  | some expected =>
    if response.offset ≠ request.offset then
      match layout.descriptorSlot response.offset with
      | .error error => .error (.arena error)
      | .ok actual => .error (.slotMismatch slotIndex actual)
    else if response.generation ≠ expected then
      .error (.unexpectedGeneration expected response.generation)
    else (layout.descriptorSlot response.offset).mapError .arena

/-! ### The Manager -/

inductive ManagerPhase where
  | idle
  /-- In `consume_descriptor`: the command was validated and its slot is read. -/
  | reading (command : Command) (slot : Nat) (reader : Reader)
  /-- The request is consumed and its payload handled. -/
  | dispatching (command : Command)
  /-- In `write_response`. -/
  | responding (command : Command) (write : PendingWrite)

inductive DispatchOutcome where
  | failed (status : StatusCode)
  /-- Restore: the acknowledgement carries no response. -/
  | accepted
  | answered (payload : Payload)

/-- The state of the Manager, of its clients and of what is between them. -/
structure Channel where
  slots : Nat → ArenaSlot
  active : Nat → Bool
  nextClientToken : Nat
  sessions : Nat → Option BootstrapSession
  clients : Nat → Option BootstrapClient
  queue : List Command
  manager : ManagerPhase
  replies : List Response
  calls : List DescriptorCall
  consumed : List DescriptorExchange
  answered : List DescriptorExchange
  returned : List (DescriptorCode × DescriptorExchange)

namespace Channel

def new (firstToken : Nat) : Channel where
  slots _ := .zeroed
  active _ := false
  nextClientToken := firstToken
  sessions _ := none
  clients _ := none
  queue := []
  manager := .idle
  replies := []
  calls := []
  consumed := []
  answered := []
  returned := []

def disturb (slot : Nat) (owner : Option Nat) (token : Nat) (client : BootstrapClient) :
    BootstrapClient :=
  if client.slotIndex = slot ∧ owner ≠ some token then { client with disturbed := true } else client

/-- Stores into a slot, by or for the client `owner`. -/
def store (s : Channel) (slot : Nat) (stores : List Store) (owner : Option Nat) : Channel :=
  { s with
    slots := update s.slots slot (stores.foldl ArenaSlot.store (s.slots slot))
    clients := fun token => (s.clients token).map (disturb slot owner token) }

variable (layout : ArenaLayout) (s : Channel) (token : Nat) (client : BootstrapClient)

def setClient : Channel :=
  { s with clients := update s.clients token (some client) }

/-! #### Slots and sessions -/

/-- The first generation of a session, from the generation its slot was left with. -/
def initialGeneration (current : Nat) : Option Nat :=
  if current = 0 then some 1
  else if current % 2 = 0 then boundedAdd current 1
  else boundedAdd current 2

def freeSlot? : Option Nat :=
  (List.range layout.slotCount).find? fun slot => !s.active slot

def allocateSlot : Except BootstrapError (Nat × Nat × Channel) :=
  match s.freeSlot? layout with
  | none => .error (.noFreeSlots layout.slotCount)
  | some slot =>
    match initialGeneration (s.slots slot).generation with
    | none => .error (.generationExhausted slot)
    | some generation =>
      .ok (slot, generation,
        { s.store slot (resetStores generation) none with
          active := update s.active slot true })

def releaseSlot (slot : Nat) : Channel :=
  { s with active := update s.active slot false }

/-- The session of a client that connects, and the client as it is told about it. -/
def openSession (slot generation token : Nat) : Channel :=
  { s with
    sessions := update s.sessions token (some ⟨slot, token, generation⟩)
    clients := update s.clients token (some ⟨slot, generation, false, .idle, false⟩) }

/-- `accept`. An accept that fails after the client was told about its session is one that succeeds
and whose session is dropped at once. -/
def accept : Channel :=
  match s.allocateSlot layout with
  | .error _ => s
  | .ok (slot, generation, allocated) =>
    match boundedAdd s.nextClientToken 2 with
    | none => allocated.releaseSlot slot
    | some next =>
      { allocated.openSession slot generation s.nextClientToken with nextClientToken := next }

def dropSession (session : BootstrapSession) : Channel :=
  { s.releaseSlot session.slotIndex with sessions := update s.sessions token none }

/-! #### The calls of a client -/

/-- `call_descriptor` takes `call_lock` and looks at `poisoned`. -/
def enter (code : DescriptorCode) (payload : Payload) : Channel :=
  if client.poisoned then s
  else
    { s.setClient token { client with phase := .entered ⟨s.calls.length, code, payload⟩ } with
      calls := s.calls ++ [⟨token, code, payload⟩] }

def write (layout : ArenaLayout) (s : Channel) (token : Nat) (client : BootstrapClient) :
    Option Channel :=
  match client.phase with
  | .entered request =>
    match layout.writeSlot client.slotIndex client.nextGeneration request.payload with
    | .error _ => some (s.setClient token client.finish)
    | .ok write => some (s.setClient token { client with phase := .writing request write })
  | .writing request ⟨slot, first :: rest, descriptor⟩ =>
    let next := { client with phase := .writing request ⟨slot, rest, descriptor⟩ }
    some ((s.setClient token next).store slot [first] (some token))
  | _ => none

def submit : Option Channel :=
  match client.phase with
  | .writing request ⟨_, [], descriptor⟩ =>
    some { s.setClient token { client with phase := .waiting request descriptor } with
      queue := s.queue ++ [⟨request.call, request.code, token, descriptor⟩] }
  | _ => none

/-- The transport reports an error: the command was not sent, or no reply is waited for. -/
def fail : Option Channel :=
  match client.phase with
  | .writing _ ⟨_, [], _⟩ | .waiting _ _ => some (s.setClient token client.close.finish)
  | _ => none

/-- A call returns `Ok(payload)` if it could be settled. -/
def settleCall (request : Request) (descriptor : DescriptorRef) (payload : Payload) : Channel :=
  match client.settle descriptor with
  | (settled, false) => s.setClient token settled
  | (settled, true) =>
    { s.setClient token settled with
      returned := s.returned ++
        [(request.code, ⟨request.call, token, descriptor.generation, payload⟩)] }

/-- What `call_descriptor` does with a reply. -/
def handleReply (request : Request) (descriptor : DescriptorRef) (reply : Response) : Channel :=
  if reply.status ≠ .ok then
    if reply.consumed then s.setClient token (client.settle descriptor).1
    else s.setClient token client.close.finish
  else if !reply.consumed then s.setClient token client.close.finish
  else if request.code = .restore then s.settleCall token client request descriptor []
  else
    match layout.responseSlot client.slotIndex descriptor reply.descriptor with
    | .error _ => s.setClient token client.close.finish
    | .ok slot =>
      s.setClient token
        { client with phase := .reading request descriptor reply.descriptor slot .generation }

def receive (index : Nat) : Option Channel :=
  match client.phase, s.replies[index]? with
  | .waiting request descriptor, some reply =>
    if reply.clientToken = token ∧ reply.call = request.call then
      some (handleReply layout { s with replies := s.replies.eraseIdx index } token client request
        descriptor reply)
    else none
  | _, _ => none

def load (layout : ArenaLayout) (s : Channel) (token : Nat) (client : BootstrapClient) :
    Option Channel :=
  match client.phase with
  | .reading request descriptor response slot reader =>
    match (s.slots slot).load layout.slotCapacity response reader with
    | .done (.error _) => some (s.setClient token client.close.finish)
    | .done (.ok payload) => some (s.settleCall token client request descriptor payload)
    | next =>
      some (s.setClient token
        { client with phase := .reading request descriptor response slot next })
  | _ => none

/-! #### The Manager's side -/

def requestSlot (command : Command) : Except StatusCode Nat :=
  match layout.descriptorSlot command.descriptor.offset with
  | .error error => .error error.status
  | .ok slot =>
    match s.sessions command.clientToken with
    | none => .error .staleSession
    | some session =>
      match session.validateRequest command.descriptor command.clientToken slot with
      | .error error => .error error.status
      | .ok () => .ok slot

def reply (command : Command) (status : StatusCode) (consumed : Bool) (descriptor : DescriptorRef) :
    Channel :=
  { s with
    manager := .idle
    replies := s.replies ++ [⟨command.call, command.clientToken, status, consumed, descriptor⟩] }

/-- A Publish that is not admitted any more is refused before its descriptor is looked at. -/
def take (index : Nat) (admitted : Bool) : Option Channel :=
  match s.manager, s.queue[index]? with
  | .idle, some command =>
    let rest := { s with queue := s.queue.eraseIdx index }
    if command.code = .publish ∧ !admitted then
      some (rest.reply command .staleSession false command.descriptor)
    else
      match s.requestSlot layout command with
      | .error status => some (rest.reply command status false command.descriptor)
      | .ok slot => some { rest with manager := .reading command slot .generation }
  | _, _ => none

/-- The end of `consume_descriptor`: the session advances and the flag is set. -/
def consume (command : Command) (session : BootstrapSession) (payload : Payload) : Channel :=
  match session.completeRequest with
  | .error error => s.reply command error.status false command.descriptor
  | .ok completed =>
    { s with
      sessions := update s.sessions command.clientToken (some completed)
      manager := .dispatching command
      consumed := s.consumed ++
        [⟨command.call, command.clientToken, command.descriptor.generation, payload⟩] }

def fetch : Option Channel :=
  match s.manager with
  | .reading command slot reader =>
    match (s.slots slot).load layout.slotCapacity command.descriptor reader with
    | .done (.error error) => some (s.reply command error.status false command.descriptor)
    | .done (.ok payload) =>
      (s.sessions command.clientToken).map fun session => s.consume command session payload
    | next => some { s with manager := .reading command slot next }
  | _ => none

/-- The payload has been handled. The flag may be lost to an injected fault only. -/
def dispatch (flag : Bool) : DispatchOutcome → Option Channel
  | .failed status =>
    match s.manager with
    | .dispatching command =>
      if status = .ok then none else some (s.reply command status true command.descriptor)
    | _ => none
  | .accepted =>
    match s.manager with
    | .dispatching command =>
      if command.code = .restore then some (s.reply command .ok flag command.descriptor)
      else none
    | _ => none
  | .answered payload =>
    match s.manager with
    | .dispatching command =>
      if command.code = .restore then none
      else
        match layout.writeResponse command.descriptor payload with
        | .error error => some (s.reply command error.status true command.descriptor)
        | .ok write =>
          some { s with
            manager := .responding command write
            answered := s.answered ++
              [⟨command.call, command.clientToken, command.descriptor.generation, payload⟩] }
    | _ => none

/-- The next store of `write_response`; then the reply, which a Publish that has failed since makes
an error. -/
def respond (status : StatusCode) (flag : Bool) : Option Channel :=
  match s.manager with
  | .responding command ⟨slot, first :: rest, descriptor⟩ =>
    some ({ s with manager := .responding command ⟨slot, rest, descriptor⟩ }.store slot [first]
      (some command.clientToken))
  | .responding command ⟨_, [], descriptor⟩ => some (s.reply command status flag descriptor)
  | _ => none

end Channel

/-! ### Runs -/

inductive ChannelStep where
  | accept
  | drop (token : Nat)
  | enter (token : Nat) (code : DescriptorCode) (payload : Payload)
  | write (token : Nat)
  | submit (token : Nat)
  | fail (token : Nat)
  | receive (token index : Nat)
  | load (token : Nat)
  | close (token : Nat)
  | take (index : Nat) (admitted : Bool)
  | fetch
  | dispatch (outcome : DispatchOutcome) (flag : Bool)
  | respond (status : StatusCode) (flag : Bool)

namespace Channel

def isFree (s : Channel) : Bool :=
  match s.manager with
  | .idle => true
  | _ => false

def next (layout : ArenaLayout) (s : Channel) : ChannelStep → Option Channel
  | .accept => if s.isFree then some (s.accept layout) else none
  | .drop token =>
    if s.isFree then (s.sessions token).map fun session => s.dropSession token session else none
  | .enter token code payload =>
    (s.clients token).bind fun client =>
      match client.phase with
      | .idle => some (s.enter token client code payload)
      | _ => none
  | .write token => (s.clients token).bind fun client => s.write layout token client
  | .submit token => (s.clients token).bind fun client => s.submit token client
  | .fail token => (s.clients token).bind fun client => s.fail token client
  | .receive token index => (s.clients token).bind fun client => s.receive layout token client index
  | .load token => (s.clients token).bind fun client => s.load layout token client
  | .close token => (s.clients token).map fun client => s.setClient token client.close
  | .take index admitted => s.take layout index admitted
  | .fetch => s.fetch layout
  | .dispatch outcome flag => s.dispatch layout flag outcome
  | .respond status flag => s.respond status flag

end Channel

def channelMachine (layout : ArenaLayout) (firstToken : Nat) : Machine Channel ChannelStep :=
  .ofNext (· = .new firstToken) (Channel.next layout)

def Channel.loneNext (layout : ArenaLayout) (s : Channel) : ChannelStep → Option Channel
  | .accept => none
  | l => s.next layout l

def loneMachine (layout : ArenaLayout) (firstToken : Nat) : Machine Channel ChannelStep :=
  .ofNext (· = (Channel.new firstToken).accept layout) (Channel.loneNext layout)

end OrbitKV
