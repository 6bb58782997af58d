import OrbitKV.Channel.CacheProtocol
import OrbitKV.Lib.Machine
import OrbitKV.Storage.Inventory

/-!
# Query control

What the pending queries answer, the readings of the clock and the registrations of the engine are
arguments of the call.
-/

namespace OrbitKV

open Std

inductive GrpcCode where
  | invalidArgument
  | failedPrecondition
  | resourceExhausted
  | notFound
  | unavailable
  | permissionDenied
  | internal
  deriving DecidableEq, Repr

structure Status where
  code : GrpcCode
  message : String
  deriving DecidableEq, Repr

namespace Status

def invalidArgument (message : String) : Status := ⟨.invalidArgument, message⟩
def failedPrecondition (message : String) : Status := ⟨.failedPrecondition, message⟩
def resourceExhausted (message : String) : Status := ⟨.resourceExhausted, message⟩
def notFound (message : String) : Status := ⟨.notFound, message⟩
def unavailable (message : String) : Status := ⟨.unavailable, message⟩
def permissionDenied (message : String) : Status := ⟨.permissionDenied, message⟩
def internal (message : String) : Status := ⟨.internal, message⟩

end Status

/-- Tickets are ordered by operation, then revision. -/
instance : Ord QueryTicket :=
  ⟨compareLex (compareOn QueryTicket.operationId) (compareOn QueryTicket.revision)⟩

instance : TransOrd QueryTicket :=
  inferInstanceAs
    (TransCmp (compareLex (compareOn QueryTicket.operationId) (compareOn QueryTicket.revision)))

instance : LawfulEqOrd QueryTicket where
  eq_of_compare := by
    rintro ⟨operation, revision⟩ ⟨operation', revision'⟩ heq
    obtain ⟨hoperation, hrevision⟩ := compareLex_eq_eq.mp heq
    simp_all [compareOn]

def maxTargets : Nat := 1024
def maxInterests : Nat := 1024
def maxInterestsPerTarget : Nat := 128
def maxOperations : Nat := 128
def maxCommandBytes : Nat := 64 * 1024
def maxQueryTargetPayload : Nat := 64 * 1024

def interestTimeout : Nat := 60 * 10 ^ 9

inductive QueryOutcome where
  | busy
  | loading
  | candidates (hitPositions : List UInt32)
  | ready (numHitBlocks : UInt64) (lease : Bytes) (hitPositions : List UInt32)
  deriving DecidableEq, Repr

/-- `QueryReply`; an engine error is its text. -/
structure QueryReply where
  outcome : Except String QueryOutcome
  delivered : Bool

structure RetainedReply where
  reply : QueryReply
  payload : Bytes
  expires : Nat

inductive Submission where
  | active (digest : Bytes)
  | canceled
  deriving DecidableEq, Repr

structure RegisteredQueryTarget where
  version : UInt32
  endpoint : String
  instanceId : String
  ns : String
  storageNamespace : String
  tpSize : UInt32
  worldSize : UInt32
  managerIncarnation : Bytes
  registrationGeneration : Bytes
  capability : Bytes
  deriving DecidableEq, Repr

structure Interest where
  target : RegisteredQueryTarget
  token : Nat
  expires : Nat
  submitted : ExtTreeMap QueryTicket Submission
  replies : ExtTreeMap QueryTicket RetainedReply

structure ControlBook where
  targets : ExtTreeMap Uuid RegisteredQueryTarget
  interests : ExtTreeMap Uuid Interest
  nextToken : Nat
  closed : Bool

structure QueryInterest where
  id : Bytes
  managerIncarnation : Bytes

/-- What of `QueryRegistration` goes into a target. -/
structure QueryRegistration where
  generation : Bytes
  ns : String
  storageNamespace : String
  tpSize : Nat
  worldSize : Nat

structure SessionRequest where
  instanceId : String
  ns : String
  tpSize : UInt32
  worldSize : UInt32

/-- The constants of a service, its hash and what it uses of libraries. -/
structure QueryControlService where
  endpoint : String
  incarnation : Bytes
  sha256 : Bytes → Bytes
  encodedLen : RegisteredQueryTarget → Nat
  errorText : Failure CacheProtocolError → String

structure Surroundings where
  clock : Nat → Nat
  registrationMatches : RegisteredQueryTarget → Bool

def uuidFromSlice (bytes : Bytes) : Option Uuid :=
  if bytes.length = 16 then
    some (BitVec.ofNat 128 (bytes.foldl (fun id byte => id * 256 + byte.toNat) 0))
  else none

def parseUuid (bytes : Bytes) (name : String) : Except Status Uuid :=
  match uuidFromSlice bytes with
  | none => .error (.invalidArgument name)
  | some id => if id.isNil then .error (.invalidArgument name) else .ok id

namespace QueryControlService

variable (service : QueryControlService)

def encodeResponse (response : QueryBundleResponse) : Except Status Bytes :=
  response.encode.mapError fun error => .internal (service.errorText error)

def encodeOutcome (reply : QueryReply) : Except Status Bytes :=
  match reply.outcome with
  | .error error => .error (.failedPrecondition error)
  | .ok (.ready numHitBlocks lease hitPositions) =>
    service.encodeResponse ⟨.ready, numHitBlocks, lease, hitPositions⟩
  | .ok .busy => service.encodeResponse ⟨.busy, 0, [], []⟩
  | .ok _ => .error (.internal "unsupported registered query outcome")

end QueryControlService

namespace Interest

def cancel (interest : Interest) (ticket : QueryTicket) : Except Status Interest :=
  if interest.submitted[ticket]?.isNone && maxOperations ≤ interest.submitted.size then
    .error (.resourceExhausted "query operation limit")
  else
    .ok { interest with
      submitted := interest.submitted.insert ticket .canceled
      replies := interest.replies.erase ticket }

/-- The condition of `admit` on a submitted query, negated. -/
def accepts (interest : Interest) (query : QueryBundleRequest) : Bool :=
  !(query.instanceId ≠ interest.target.instanceId || query.groupId ≠ 0 || query.warmup ||
    query.prepare || query.discover || query.materialize || query.waitForFullPrefix ||
    query.demand.isSome || 4096 < query.blockHashes.length ||
    256 < query.requestId.utf8ByteSize ||
    query.blockHashes.any fun hash => hash.isEmpty || 128 < hash.length)

def operationCanceled (interest : Interest) (operation : UInt64) : Bool :=
  interest.submitted.toList.any fun entry =>
    entry.1.operationId = operation && entry.2 = .canceled

def operationFinished (interest : Interest) (operation : UInt64) : Bool :=
  interest.replies.toList.any fun entry => entry.1.operationId = operation

def admitSubmit (service : QueryControlService) (interest : Interest) (query : QueryBundleRequest)
    (encoded : Bytes) : Except Status (QueryTicket × Interest) :=
  if !interest.accepts query then
    .error (.invalidArgument "query control accepts only bounded dense prefixes")
  else
    match interest.submitted[query.ticket]? with
    | some .canceled => .error (.failedPrecondition "query operation canceled")
    | some (.active previous) =>
      if previous ≠ service.sha256 encoded then
        .error (.invalidArgument "query changed without new revision")
      else .ok (query.ticket, interest)
    | none =>
      if interest.operationCanceled query.ticket.operationId then
        .error (.failedPrecondition "query operation canceled")
      else if maxOperations ≤ interest.submitted.size then
        .error (.resourceExhausted "query operation limit")
      else if interest.operationFinished query.ticket.operationId then
        .error (.failedPrecondition "finished operation requires a new id")
      else
        .ok (query.ticket, { interest with
          submitted := interest.submitted.insert query.ticket (.active (service.sha256 encoded)) })

end Interest

def Interest.admit (service : QueryControlService) (interest : Interest) (command : QueryCommand)
    (encoded : Bytes) : Except Status (QueryTicket × Interest) :=
  match command with
  | .submit query => interest.admitSubmit service query encoded
  | .poll ticket =>
    if interest.submitted[ticket]? = some .canceled then
      .error (.failedPrecondition "query operation canceled")
    else .ok (ticket, interest)
  | .claim _ _ => .error (.invalidArgument "preparation claim is not network delivery")

namespace Interest

/-- One entry of `replies.retain` in `retire`. -/
def expireReply (now : Nat) (interest : Interest) (entry : QueryTicket × RetainedReply) :
    Interest :=
  if entry.2.expires ≤ now then
    { interest with
      submitted := interest.submitted.insert entry.1 .canceled
      replies := interest.replies.erase entry.1 }
  else interest

def expireReplies (now : Nat) (interest : Interest) : Interest :=
  interest.replies.toList.foldl (expireReply now) interest

/-- `replies.get(&key).is_some_and(|reply| reply.expires <= Instant::now())`. -/
def replyExpired (interest : Interest) (ticket : QueryTicket) (now : Nat) : Bool :=
  interest.replies[ticket]?.any (·.expires ≤ now)

end Interest

namespace ControlBook

def new : ControlBook :=
  ⟨∅, ∅, 0, false⟩

def put (book : ControlBook) (id : Uuid) (interest : Interest) : ControlBook :=
  { book with interests := book.interests.insert id interest }

def retire (around : Surroundings) (book : ControlBook) : ControlBook :=
  let now := around.clock 0
  { book with
    targets := book.targets.filter fun _ target => around.registrationMatches target
    interests := book.interests.filterMap fun _ interest =>
      if !book.closed && now < interest.expires && around.registrationMatches interest.target then
        some (interest.expireReplies now)
      else none }

def stop (around : Surroundings) (book : ControlBook) : ControlBook :=
  { { book with closed := true }.retire around with targets := ∅ }

/-- `interest`: the interest that a request names, with its lease extended. -/
def interest (service : QueryControlService) (around : Surroundings) (wire : Option QueryInterest)
    (book : ControlBook) : Except Status (Uuid × Interest) × ControlBook :=
  match wire with
  | none => (.error (.invalidArgument "missing interest"), book)
  | some wire =>
    if wire.managerIncarnation ≠ service.incarnation then
      (.error (.failedPrecondition "retired Manager incarnation"), book)
    else
      match parseUuid wire.id "invalid interest id" with
      | .error status => (.error status, book)
      | .ok id =>
        if book.closed || book.interests[id]?.any fun interest =>
            interest.expires ≤ around.clock 0 || !around.registrationMatches interest.target then
          (.error (.failedPrecondition "retired query interest registration"),
            { book with interests := book.interests.erase id })
        else
          match book.interests[id]? with
          | none => (.error (.notFound "unknown or retired query interest"), book)
          | some interest =>
            let interest := { interest with expires := around.clock 1 + interestTimeout }
            (.ok (id, interest), book.put id interest)

section Calls

variable (service : QueryControlService) (around : Surroundings)

/-- `export`; the capability is a fresh random identifier. -/
def exportTarget (registration : Except String QueryRegistration) (capability : Uuid)
    (capabilityBytes : Bytes) (request : SessionRequest) (book : ControlBook) :
    Except Status RegisteredQueryTarget × ControlBook :=
  match registration with
  | .error error => (.error (.failedPrecondition error), book)
  | .ok registration =>
    if request.ns ≠ registration.ns || request.tpSize.toNat ≠ registration.tpSize ||
        request.worldSize.toNat ≠ registration.worldSize then
      (.error (.failedPrecondition "query target registration differs"), book)
    else
      let book := book.retire around
      if book.closed then
        (.error (.unavailable "query control is closed"), book)
      else
        match book.targets.toList.find? fun entry => entry.2.instanceId = request.instanceId &&
            entry.2.registrationGeneration = registration.generation with
        | some entry => (.ok entry.2, book)
        | none =>
          if maxTargets ≤ book.targets.size then
            (.error (.resourceExhausted "registered query target limit"), book)
          else if 2 ^ 32 ≤ registration.tpSize then
            (.error (.internal "tp size"), book)
          else if 2 ^ 32 ≤ registration.worldSize then
            (.error (.internal "world size"), book)
          else
            let target : RegisteredQueryTarget := {
              version := 1
              endpoint := service.endpoint
              instanceId := request.instanceId
              ns := registration.ns
              storageNamespace := registration.storageNamespace
              tpSize := .ofNat registration.tpSize
              worldSize := .ofNat registration.worldSize
              managerIncarnation := service.incarnation
              registrationGeneration := registration.generation
              capability := capabilityBytes }
            if maxQueryTargetPayload < service.encodedLen target then
              (.error (.resourceExhausted "query target metadata limit"), book)
            else
              (.ok target, { book with targets := book.targets.insert capability target })

/-- `open_interest`; the identifier of the interest is a fresh random one. -/
def openInterest (id : Uuid) (idBytes coordinatorIncarnation : Bytes)
    (target : Option RegisteredQueryTarget) (book : ControlBook) :
    Except Status QueryInterest × ControlBook :=
  match parseUuid coordinatorIncarnation "invalid coordinator incarnation", target with
  | .error status, _ => (.error status, book)
  | .ok _, none => (.error (.invalidArgument "missing target"), book)
  | .ok _, some target =>
    match parseUuid target.capability "invalid capability" with
    | .error status => (.error status, book)
    | .ok capability =>
      let book := book.retire around
      if book.closed then
        (.error (.unavailable "query control is closed"), book)
      else if book.targets[capability]? ≠ some target then
        (.error (.permissionDenied "retired or mismatched query capability"), book)
      else if maxInterests ≤ book.interests.size ||
          maxInterestsPerTarget ≤ book.interests.toList.countP fun entry =>
            entry.2.target.capability = target.capability then
        (.error (.resourceExhausted "query interest limit"), book)
      else if u64Bound ≤ book.nextToken + 2 then
        (.error (.resourceExhausted "query token space exhausted"), book)
      else
        let token := book.nextToken + 2
        (.ok ⟨idBytes, service.incarnation⟩,
          { book with nextToken := token }.put id
            ⟨target, token, around.clock 1 + interestTimeout, ∅, ∅⟩)

/-- `execute` behind `admit`; `answer` is what the pending queries return. -/
def serve (answer : Except String (Option QueryReply)) (interest : Interest)
    (ticket : QueryTicket) : Except Status Bytes × Interest :=
  if interest.replyExpired ticket (around.clock 2) then
    match interest.cancel ticket with
    | .error status => (.error status, interest)
    | .ok interest => (.error (.failedPrecondition "query result expired"), interest)
  else
    match interest.replies[ticket]? with
    | some reply => (.ok reply.payload, interest)
    | none =>
      if interest.submitted[ticket]?.isNone then
        (.error (.notFound "unknown query revision"), interest)
      else
        match answer with
        | .error error => (.error (.failedPrecondition error), interest)
        | .ok none => (service.encodeResponse ⟨.loading, 0, [], []⟩, interest)
        | .ok (some reply) =>
          match service.encodeOutcome reply with
          | .error status => (.error status, interest)
          | .ok payload => (.ok payload, { interest with
              replies := interest.replies.insert ticket
                ⟨reply, payload, around.clock 3 + interestTimeout⟩ })

def execute (answer : Except String (Option QueryReply)) (wire : Option QueryInterest)
    (command : Slice) (book : ControlBook) : Except Status Bytes × ControlBook :=
  if maxCommandBytes < command.bytes.length then
    (.error (.resourceExhausted "query command limit"), book)
  else
    match QueryCommand.decode command with
    | .error error => (.error (.invalidArgument (service.errorText error)), book)
    | .ok decoded =>
      match book.interest service around wire with
      | (.error status, book) => (.error status, book)
      | (.ok (id, interest), book) =>
        match interest.admit service decoded command.bytes with
        | .error status => (.error status, book)
        | .ok (ticket, interest) =>
          let (result, interest) := serve service around answer interest ticket
          (result, book.put id interest)

def deliver (interest : Interest) (ticket : QueryTicket) (lease : Bytes) :
    Except Status Bytes × Interest :=
  if interest.replyExpired ticket (around.clock 2) then
    match interest.cancel ticket with
    | .error status => (.error status, interest)
    | .ok interest => (.error (.failedPrecondition "query result expired"), interest)
  else
    match interest.replies[ticket]? with
    | none => (.error (.notFound "query reply not retained"), interest)
    | some retained =>
      match retained.reply.outcome with
      | .ok (.ready _ granted _) =>
        if granted = lease then
          (.ok retained.payload, { interest with
            replies := interest.replies.insert ticket
              { retained with reply := { retained.reply with delivered := true } } })
        else (.error (.failedPrecondition "claim requires the exact ready lease"), interest)
      | _ => (.error (.failedPrecondition "claim requires the exact ready lease"), interest)

def claim (wire : Option QueryInterest) (ticket : QueryTicket) (lease : Bytes)
    (book : ControlBook) : Except Status Bytes × ControlBook :=
  match book.interest service around wire with
  | (.error status, book) => (.error status, book)
  | (.ok (id, interest), book) =>
    let (result, interest) := deliver around interest ticket lease
    (result, book.put id interest)

def cancel (wire : Option QueryInterest) (ticket : QueryTicket) (book : ControlBook) :
    Except Status Unit × ControlBook :=
  if ticket.operationId = 0 || ticket.revision = 0 then
    (.error (.invalidArgument "invalid query ticket"), book)
  else
    match book.interest service around wire with
    | (.error status, book) => (.error status, book)
    | (.ok (id, interest), book) =>
      match interest.cancel ticket with
      | .error status => (.error status, book)
      | .ok interest => (.ok (), book.put id interest)

def close (wire : QueryInterest) (book : ControlBook) : Except Status Unit × ControlBook :=
  if wire.managerIncarnation ≠ service.incarnation then
    (.error (.failedPrecondition "retired Manager incarnation"), book)
  else
    match parseUuid wire.id "invalid interest id" with
    | .error status => (.error status, book)
    | .ok id => (.ok (), { book with interests := book.interests.erase id })

end Calls

end ControlBook

inductive ControlCall where
  | exportTarget (registration : Except String QueryRegistration) (capability : Uuid)
      (capabilityBytes : Bytes) (request : SessionRequest)
  | openInterest (id : Uuid) (idBytes coordinatorIncarnation : Bytes)
      (target : Option RegisteredQueryTarget)
  | execute (answer : Except String (Option QueryReply)) (wire : Option QueryInterest)
      (command : Slice)
  | claim (wire : Option QueryInterest) (ticket : QueryTicket) (lease : Bytes)
  | cancel (wire : Option QueryInterest) (ticket : QueryTicket)
  | close (wire : QueryInterest)
  | retire
  | stop

namespace ControlBook

def after (service : QueryControlService) (book : ControlBook) (around : Surroundings) :
    ControlCall → ControlBook
  | .exportTarget registration capability capabilityBytes request =>
    (book.exportTarget service around registration capability capabilityBytes request).2
  | .openInterest id idBytes coordinatorIncarnation target =>
    (book.openInterest service around id idBytes coordinatorIncarnation target).2
  | .execute answer wire command => (book.execute service around answer wire command).2
  | .claim wire ticket lease => (book.claim service around wire ticket lease).2
  | .cancel wire ticket => (book.cancel service around wire ticket).2
  | .close wire => (book.close service wire).2
  | .retire => book.retire around
  | .stop => book.stop around

/-- All calls of one service, at any times; each call runs under the lock of the book. -/
def machine (service : QueryControlService) : Machine ControlBook (Surroundings × ControlCall) :=
  .ofNext (· = .new) fun book call => some (book.after service call.1 call.2)

end ControlBook

end OrbitKV
