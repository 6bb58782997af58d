import OrbitKV.Planning.Peer

/-!
# Executing a fetch plan

What the two methods of the fetcher return, and when, is one `Turn` for each pass of the loop of
`execute_fetch_plan`. A grant is the number of the call that returned it. The log of calls and
answers is not in the source.
-/

namespace OrbitKV

def maxAuthorizationRetries : Nat := 2

inductive AuthorizationError where
  | rejected
  | failed
  deriving DecidableEq, Repr

inductive AuthorizationMode where
  | demand
  | lookahead
  deriving DecidableEq, Repr

inductive FetchStatus where
  | complete
  | authorizationExhausted
  | payloadFailed
  deriving DecidableEq, Repr

/-- What the loop and the fetcher do, each for the rows of the segment from `start` on. -/
inductive FetchEvent where
  /-- `authorize_segment` is called. -/
  | asked (call : Nat) (mode : AuthorizationMode) (start : Nat) (segment : FetchSegment)
  /-- It returns a grant. -/
  | granted (call : Nat) (start : Nat) (segment : FetchSegment)
  /-- It returns an error. -/
  | refused (call : Nat) (mode : AuthorizationMode) (error : AuthorizationError) (start : Nat)
      (segment : FetchSegment)
  /-- `fetch_segment` consumes the grant of a call. -/
  | submitted (call : Nat) (start : Nat) (segment : FetchSegment)
  deriving DecidableEq, Repr

/-- How far the authorization of the next segment is when the read returns. The `select!` is biased:
it polls the read first. -/
inductive Lookahead where
  | notPolled
  | inFlight
  | returned
  deriving DecidableEq, Repr

/-- What one pass of the loop meets. No error means a grant, `none` a failed read. -/
structure Turn (α : Type) where
  route : RouteSelection
  demandError : Option AuthorizationError
  nextRoute : RouteSelection
  lookahead : Lookahead
  lookaheadError : Option AuthorizationError
  returned : Option (List (StateKey × α))

structure FetchResult (α : Type) where
  blocks : List (StateKey × α)
  status : FetchStatus
  attempts : Nat
  completedSegments : Nat

def FetchResult.canReplan {α : Type} (result : FetchResult α) : Bool :=
  result.status = .authorizationExhausted && result.blocks.isEmpty

structure FetchLoop (α : Type) where
  plan : FetchPlan
  fetched : List (StateKey × α)
  attempts : Nat
  completed : Nat
  rejected : Nat
  prepared : Option (FetchSegment × Nat)
  log : List FetchEvent

def isComplete {α : Type} (segment : FetchSegment) (blocks : List (StateKey × α)) : Bool :=
  blocks.length = segment.records.length &&
    (blocks.zip segment.records).all fun pair => pair.1.1 = pair.2.key

def contiguous {α : Type} (segment : FetchSegment) (blocks : List (StateKey × α)) : Nat :=
  ((blocks.zip segment.records).takeWhile fun pair => pair.1.1 = pair.2.key).length

namespace FetchLoop

variable {α : Type}

def init (plan : FetchPlan) : FetchLoop α where
  plan := plan
  fetched := []
  attempts := 0
  completed := 0
  rejected := 0
  prepared := none
  log := []

variable (self : FetchLoop α) (turn : Turn α)

def ask (mode : AuthorizationMode) (start : Nat) (segment : FetchSegment) : FetchLoop α :=
  { self with
    attempts := self.attempts + 1
    log := self.log ++ [.asked (self.attempts + 1) mode start segment] }

def answer (mode : AuthorizationMode) (start : Nat) (segment : FetchSegment)
    (error : Option AuthorizationError) : Except AuthorizationError Nat × FetchLoop α :=
  match error with
  | none =>
    (.ok self.attempts, { self with log := self.log ++ [.granted self.attempts start segment] })
  | some error =>
    (.error error,
      { self with log := self.log ++ [.refused self.attempts mode error start segment] })

def submit (grant : Nat) (segment : FetchSegment) : FetchLoop α :=
  { self with log := self.log ++ [.submitted grant self.fetched.length segment] }

def acquire : Option (FetchSegment × Except AuthorizationError Nat × FetchLoop α) :=
  match self.prepared with
  | some (segment, grant) => some (segment, .ok grant, { self with prepared := none })
  | none =>
    (self.plan.nextSegment turn.route self.fetched.length).map fun segment =>
      (segment, (self.ask .demand self.fetched.length segment).answer .demand
        self.fetched.length segment turn.demandError)

/-- `authorize_next` beside the read. A grant that comes in time for a read that is not complete is
dropped. -/
def authorizeNext (start : Nat) (next : Option FetchSegment) (complete : Bool) :
    Option Nat × FetchLoop α :=
  match next with
  | none => (none, self)
  | some segment =>
    if turn.lookahead = .notPolled && !complete then (none, self)
    else if turn.lookahead = .inFlight && !complete then
      (none, self.ask .lookahead start segment)
    else
      let (authorization, self) :=
        (self.ask .lookahead start segment).answer .lookahead start segment turn.lookaheadError
      (if complete then authorization.toOption else none, self)

/-- The pass from the grant on. The loop goes on unless there is a status. -/
def read (segment : FetchSegment) (grant : Nat) : FetchLoop α × Option FetchStatus :=
  let behind := self.fetched.length + segment.records.length
  let next := self.plan.nextSegment turn.nextRoute behind
  let (nextGrant, self) := (self.submit grant segment).authorizeNext turn behind next
    (turn.returned.any (isComplete segment))
  match turn.returned with
  | none => (self, some .payloadFailed)
  | some returned =>
    let count := contiguous segment returned
    let self := { self with fetched := self.fetched ++ returned.take count }
    if count ≠ segment.records.length || returned.length ≠ segment.records.length then
      (self, some .payloadFailed)
    else
      ({ self with
          completed := self.completed + 1
          prepared := next.bind fun segment => nextGrant.map (segment, ·) }, none)

def next : FetchLoop α × Option FetchStatus :=
  match self.acquire turn with
  | none => (self, some .authorizationExhausted)
  | some (segment, .error .rejected, self) =>
    let self := { self with
      plan := self.plan.reject self.fetched.length segment
      rejected := self.rejected + 1 }
    (self, if maxAuthorizationRetries < self.rejected then some .authorizationExhausted else none)
  | some (_, .error .failed, self) => (self, some .payloadFailed)
  | some (segment, .ok grant, self) => self.read turn segment grant

def finish (status : FetchStatus) : FetchResult α where
  blocks := self.fetched
  status := if self.fetched.length = self.plan.blockCount then .complete else status
  attempts := self.attempts
  completedSegments := self.completed

def run (turns : Nat → Turn α) : Nat → Nat → FetchLoop α →
    Option (FetchResult α × List FetchEvent)
  | 0, _, _ => none
  | passes + 1, index, self =>
    match self.next (turns index) with
    | (self, some status) => some (self.finish status, self.log)
    | (self, none) => run turns passes (index + 1) self

end FetchLoop

/-- `execute_fetch_plan`, with a limit on the passes that the loop never reaches. -/
def executeFetchPlan {α : Type} (turns : Nat → Turn α) (plan : FetchPlan) :
    Option (FetchResult α × List FetchEvent) :=
  FetchLoop.run turns (plan.blockCount + maxAuthorizationRetries + 1) 0 (.init plan)

end OrbitKV
