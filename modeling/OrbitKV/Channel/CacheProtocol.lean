import OrbitKV.Lib.Text
import OrbitKV.State.Record
import OrbitKV.State.Recovery

/-!
# The cache protocol

`cache_protocol.rs`, in the order of the source. A `usize` is a natural number. The text of an error
is left out; what it names is kept.
-/

namespace OrbitKV

inductive CacheProtocolError where
  | invalidRegistrationGeneration
  | invalidShardPayload
  | invalidRecoveryDemand
  | recovery (error : RecoveryError)
  | invalidCandidates
  | invalidQueryTicket
  | truncated
  | trailingBytes (count : Nat)
  | invalidMagic (magic : UInt32)
  | unsupportedVersion (version : UInt16)
  | invalidFlags (flags : UInt16)
  | unknownOutcome (value : UInt16)
  | emptyRequestId
  | emptyLease
  | fieldTooLarge (field : String) (len : Nat)
  | invalidUtf8 (field : String)
  | invalidLoadingPayload
  | publishShapeMismatch (layer : String) (blockIds blockHashes : Nat)
  | unknownCompletionIntent (value : UInt16)
  | unknownCompletionRoute (value : UInt16)
  | unknownCompletionRepresentation (value : UInt16)
  | unknownCompletionAdmission (value : UInt16)
  | unknownCompletionOutcome (value : UInt16)
  | emptyCompletionField (field : String)
  | completionFieldTooLong (field : String) (len max : Nat)
  | zeroCompletionField (field : String)
  | invalidCompletionDevice (device : Int32)
  | invalidCompletionTarget
  | invalidCompletionState
  | invalidCompletionReserved (value : UInt32)
  | completionQueueTooDeep (depth : UInt32)
  | completionQueueTooWide (parallelism : UInt32)
  | invalidCompletionResources
  deriving DecidableEq, Repr

abbrev Protocol (α : Type) : Type := Except (Failure CacheProtocolError) α

abbrev Decode (α : Type) : Type := Scan CacheProtocolError α

def queryRequestMagic : UInt32 := 0x4f525151
def queryResponseMagic : UInt32 := 0x4f525152
def queryPollMagic : UInt32 := 0x4f525150
def cancelQueryMagic : UInt32 := 0x4f525143
def releaseRequestMagic : UInt32 := 0x4f524c51
def publishRequestMagic : UInt32 := 0x4f525051
def restoreRequestMagic : UInt32 := 0x4f525251
def completionObservationMagic : UInt32 := 0x4f52434f
def shardResponseMagic : UInt32 := 0x4f525352
def cacheProtocolVersion : UInt16 := 10
def requestHeaderBytes : Nat := 40
def responseHeaderBytes : Nat := 24
def releaseHeaderBytes : Nat := 12
def publishHeaderBytes : Nat := 44
def restoreHeaderBytes : Nat := 28
def completionObservationHeaderBytes : Nat := 104
def maxCompletionInstanceIdBytes : Nat := 256
def maxCompletionSourceEndpointBytes : Nat := 1024

/-! ### Writing -/

def pushU16 (bytes : Bytes) (value : UInt16) : Bytes := bytes ++ leBytes 2 value.toNat
def pushU32 (bytes : Bytes) (value : UInt32) : Bytes := bytes ++ leBytes 4 value.toNat
def pushI32 (bytes : Bytes) (value : Int32) : Bytes := bytes ++ leBytes 4 value.toUInt32.toNat
def pushU64 (bytes : Bytes) (value : UInt64) : Bytes := bytes ++ leBytes 8 value.toNat

def checkedU32 (value : Nat) (field : String) : Protocol UInt32 :=
  if value < 2 ^ 32 then .ok (UInt32.ofNat value) else fail (.fieldTooLarge field value)

def addEncodedSize (size count width : Nat) : Protocol Nat :=
  let total := size + count * width
  if count * width < 2 ^ 64 ∧ total < 2 ^ 64 ∧ total ≤ isizeMax then .ok total
  else fail (.fieldTooLarge "payload" (2 ^ 64 - 1))

def pushBytes (bytes value : Bytes) (field : String) : Protocol Bytes := do
  return pushU32 bytes (← checkedU32 value.length field) ++ value

/-! ### Reading -/

namespace Decoder

def bytes (len : Nat) : Decode Bytes :=
  .take .truncated len

/-- `bytes(width)?.try_into().expect("fixed slice")`. -/
def fixed (width : Nat) : Decode Nat := do
  let raw ← bytes width
  if raw.length = width then return ofLe raw
  else .lift (.error .panic)

def u16 : Decode UInt16 := do
  return UInt16.ofNat (← fixed 2)

def u32 : Decode UInt32 := do
  return UInt32.ofNat (← fixed 4)

def i32 : Decode Int32 := do
  return (UInt32.ofNat (← fixed 4)).toInt32

def u64 : Decode UInt64 := do
  return UInt64.ofNat (← fixed 8)

/-- `usize_u32`, kept as the `u32` that was read. -/
def usizeU32 : Decode UInt32 :=
  u32

def expectMagic (expected : UInt32) : Decode Unit := do
  let actual ← u32
  .rejectIf (actual ≠ expected) (.invalidMagic actual)

def expectVersion : Decode Unit := do
  let version ← u16
  .rejectIf (version ≠ cacheProtocolVersion) (.unsupportedVersion version)

def fromUtf8 (raw : Bytes) (field : String) : Protocol String :=
  match String.fromUTF8? ⟨raw.toArray⟩ with
  | some text => .ok text
  | none => fail (.invalidUtf8 field)

def string (len : UInt32) (field : String) : Decode String := do
  let raw ← bytes len.toNat
  .lift (fromUtf8 raw field)

def finish : Decode Unit := do
  let left ← Scan.remaining
  .rejectIf (left ≠ 0) (.trailingBytes left)

/-- `Vec::with_capacity(count)` and a loop that pushes `count` elements. -/
def vec {α : Type} (elementSize : Nat) (count : UInt32) (item : Decode α) : Decode (List α) := do
  Scan.lift (withCapacity elementSize count.toNat)
  .times item count.toNat

/-- A `vec` whose count is first compared with what is left, at `width` bytes an element. -/
def list {α : Type} (width elementSize : Nat) (count : UInt32) (item : Decode α) :
    Decode (List α) := do
  let left ← Scan.remaining
  .rejectIf (left / width < count.toNat) .truncated
  vec elementSize count item

def sized : Decode Bytes := do
  let len ← usizeU32
  bytes len.toNat

end Decoder

open Decoder

/-! ### Completion observations -/

inductive CompletionIntent where
  | hostReady
  | engineRestore
  | sourceRelease
  deriving DecidableEq, Repr

inductive CompletionRoute where
  | prefillToDecodeHandoff
  deriving DecidableEq, Repr

inductive CompletionAdmission where
  | admitted
  | rejected
  deriving DecidableEq, Repr

inductive CompletionOutcome where
  | completed
  | failed
  | cancelled
  | timedOut
  deriving DecidableEq, Repr

def CompletionIntent.code : CompletionIntent → UInt16
  | .hostReady => 1
  | .engineRestore => 2
  | .sourceRelease => 3

def CompletionIntent.tryFrom (value : UInt16) : Protocol CompletionIntent :=
  if value = 1 then .ok .hostReady
  else if value = 2 then .ok .engineRestore
  else if value = 3 then .ok .sourceRelease
  else fail (.unknownCompletionIntent value)

def CompletionRoute.code : CompletionRoute → UInt16
  | .prefillToDecodeHandoff => 1

def CompletionRoute.tryFrom (value : UInt16) : Protocol CompletionRoute :=
  if value = 1 then .ok .prefillToDecodeHandoff
  else fail (.unknownCompletionRoute value)

def CompletionAdmission.code : CompletionAdmission → UInt16
  | .admitted => 1
  | .rejected => 2

def CompletionAdmission.tryFrom (value : UInt16) : Protocol CompletionAdmission :=
  if value = 1 then .ok .admitted
  else if value = 2 then .ok .rejected
  else fail (.unknownCompletionAdmission value)

def CompletionOutcome.code : CompletionOutcome → UInt16
  | .completed => 1
  | .failed => 2
  | .cancelled => 3
  | .timedOut => 4

def CompletionOutcome.tryFrom (value : UInt16) : Protocol CompletionOutcome :=
  if value = 1 then .ok .completed
  else if value = 2 then .ok .failed
  else if value = 3 then .ok .cancelled
  else if value = 4 then .ok .timedOut
  else fail (.unknownCompletionOutcome value)

def representationCode : ReplicaRepresentation → UInt16
  | .unknown => 0
  | .raw => 1
  | .ans => 2
  | .fp8 => 3
  | .turboQuant => 4
  | .mixed => 5

def decodeRepresentation (value : UInt16) : Protocol ReplicaRepresentation :=
  if value = 1 then .ok .raw
  else if value = 2 then .ok .ans
  else if value = 3 then .ok .fp8
  else if value = 4 then .ok .turboQuant
  else if value = 5 then .ok .mixed
  else fail (.unknownCompletionRepresentation value)

structure CompletionObservationRequest where
  instanceId : String
  destinationDeviceId : Int32
  sourceEndpoint : String
  transferGeneration : UInt64
  intent : CompletionIntent
  route : CompletionRoute
  representation : ReplicaRepresentation
  logicalBytes : UInt64
  wireBytes : UInt64
  fragmentCount : UInt32
  elapsedNs : UInt64
  decodePageBytes : UInt64
  handoffQueueDepth : UInt32
  handoffQueueParallelism : UInt32
  tentInflightBytes : UInt64
  tentBandwidthBytesPerSecond : UInt64
  admission : CompletionAdmission
  outcome : CompletionOutcome
  deriving DecidableEq

def validateCompletionString (value field : String) (maxBytes : Nat) : Protocol Unit := do
  failIf (value.utf8ByteSize = 0) (.emptyCompletionField field)
  failIf (maxBytes < value.utf8ByteSize) (.completionFieldTooLong field value.utf8ByteSize maxBytes)

namespace CompletionObservationRequest

/-- The states that the first `match` of `validate` refuses. -/
def stateInvalid (admission : CompletionAdmission) (outcome : CompletionOutcome)
    (wireBytes : UInt64) : Bool :=
  match admission, outcome with
  | .admitted, .completed => wireBytes = 0
  | .rejected, .completed => true
  | .rejected, _ => 1 ≤ wireBytes
  | _, _ => false

/-- The resources that its second `match` refuses. -/
def resourcesInvalid (self : CompletionObservationRequest) : Bool :=
  match self.admission with
  | .admitted =>
    self.decodePageBytes ≠ self.logicalBytes || self.handoffQueueDepth = 0 ||
      self.handoffQueueParallelism = 0
  | .rejected => self.decodePageBytes ≠ 0

def validate (self : CompletionObservationRequest) : Protocol Unit := do
  validateCompletionString self.instanceId "completion_instance_id" maxCompletionInstanceIdBytes
  validateCompletionString self.sourceEndpoint "completion_source_endpoint"
    maxCompletionSourceEndpointBytes
  failIf (self.destinationDeviceId < 0) (.invalidCompletionDevice self.destinationDeviceId)
  failIf (self.transferGeneration = 0) (.zeroCompletionField "transfer_generation")
  failIf (self.logicalBytes = 0) (.zeroCompletionField "logical_bytes")
  failIf (self.fragmentCount = 0) (.zeroCompletionField "fragment_count")
  failIf (self.elapsedNs = 0) (.zeroCompletionField "elapsed_ns")
  failIf (self.handoffQueueDepth > 4096) (.completionQueueTooDeep self.handoffQueueDepth)
  failIf (self.handoffQueueParallelism > 4096)
    (.completionQueueTooWide self.handoffQueueParallelism)
  failIf (self.representation = .unknown) (.unknownCompletionRepresentation 0)
  failIf (self.route = .prefillToDecodeHandoff ∧ self.intent ≠ .engineRestore)
    .invalidCompletionTarget
  failIf (stateInvalid self.admission self.outcome self.wireBytes) .invalidCompletionState
  failIf self.resourcesInvalid .invalidCompletionResources

def encode (self : CompletionObservationRequest) : Protocol Bytes := do
  self.validate
  let instanceId := asBytes self.instanceId
  let sourceEndpoint := asBytes self.sourceEndpoint
  withCapacity 1 (completionObservationHeaderBytes + instanceId.length + sourceEndpoint.length)
  let bytes := pushU32 [] completionObservationMagic
  let bytes := pushU16 bytes cacheProtocolVersion
  let bytes := pushU16 bytes 0
  let bytes := pushU16 bytes self.intent.code
  let bytes := pushU16 bytes self.route.code
  let bytes := pushU16 bytes (representationCode self.representation)
  let bytes := pushU16 bytes self.admission.code
  let bytes := pushU16 bytes self.outcome.code
  let bytes := pushU16 bytes 0
  let bytes := pushI32 bytes self.destinationDeviceId
  let bytes := pushU32 bytes (← checkedU32 instanceId.length "completion_instance_id")
  let bytes := pushU32 bytes (← checkedU32 sourceEndpoint.length "completion_source_endpoint")
  let bytes := pushU64 bytes self.transferGeneration
  let bytes := pushU64 bytes self.logicalBytes
  let bytes := pushU64 bytes self.wireBytes
  let bytes := pushU32 bytes self.fragmentCount
  let bytes := pushU32 bytes 0
  let bytes := pushU64 bytes self.elapsedNs
  let bytes := pushU64 bytes self.decodePageBytes
  let bytes := pushU32 bytes self.handoffQueueDepth
  let bytes := pushU32 bytes self.handoffQueueParallelism
  let bytes := pushU64 bytes self.tentInflightBytes
  let bytes := pushU64 bytes self.tentBandwidthBytesPerSecond
  return bytes ++ instanceId ++ sourceEndpoint

def decoder : Decode CompletionObservationRequest := do
  expectMagic completionObservationMagic
  expectVersion
  let flags ← u16
  .rejectIf (flags ≠ 0) (.invalidFlags flags)
  let intent ← .lift (CompletionIntent.tryFrom (← u16))
  let route ← .lift (CompletionRoute.tryFrom (← u16))
  let representation ← .lift (decodeRepresentation (← u16))
  let admission ← .lift (CompletionAdmission.tryFrom (← u16))
  let outcome ← .lift (CompletionOutcome.tryFrom (← u16))
  let reserved ← u16
  .rejectIf (reserved ≠ 0) (.invalidCompletionReserved reserved.toUInt32)
  let destinationDeviceId ← i32
  let instanceLen ← usizeU32
  let sourceLen ← usizeU32
  let transferGeneration ← u64
  let logicalBytes ← u64
  let wireBytes ← u64
  let fragmentCount ← u32
  let reserved ← u32
  .rejectIf (reserved ≠ 0) (.invalidCompletionReserved reserved)
  let elapsedNs ← u64
  let decodePageBytes ← u64
  let handoffQueueDepth ← u32
  let handoffQueueParallelism ← u32
  let tentInflightBytes ← u64
  let tentBandwidthBytesPerSecond ← u64
  let instanceId ← string instanceLen "completion_instance_id"
  let sourceEndpoint ← string sourceLen "completion_source_endpoint"
  finish
  let request : CompletionObservationRequest := {
    instanceId, destinationDeviceId, sourceEndpoint, transferGeneration, intent, route,
    representation, logicalBytes, wireBytes, fragmentCount, elapsedNs, decodePageBytes,
    handoffQueueDepth, handoffQueueParallelism, tentInflightBytes, tentBandwidthBytesPerSecond,
    admission, outcome }
  .lift request.validate
  return request

def decode (bytes : Slice) : Protocol CompletionObservationRequest :=
  decoder.run' (.new bytes)

end CompletionObservationRequest

/-! ### Queries -/

structure QueryTicket where
  operationId : UInt64
  revision : UInt64
  deriving DecidableEq, Repr

namespace QueryTicket

def encodeInto (self : QueryTicket) (bytes : Bytes) : Protocol Bytes := do
  failIf (self.operationId = 0 ∨ self.revision = 0) .invalidQueryTicket
  return pushU64 (pushU64 bytes self.operationId) self.revision

def decodeFrom : Decode QueryTicket := do
  let operationId ← u64
  let revision ← u64
  .rejectIf (operationId = 0 ∨ revision = 0) .invalidQueryTicket
  return { operationId, revision }

end QueryTicket

structure QueryBundleRequest where
  ticket : QueryTicket
  instanceId : String
  requestId : String
  blockHashes : List Bytes
  groupId : UInt32
  waitForFullPrefix : Bool
  warmup : Bool
  discover : Bool
  materialize : Bool
  prepare : Bool
  demand : Option RecoveryDemand

/-- `demand.validate(..)?`, the error converted. -/
def validateDemand (demand : RecoveryDemand) (group : UInt32) (blocks : Nat) : Protocol Unit :=
  (demand.validate group blocks).mapError fun
    | .panic => .panic
    | .error error => .error (.recovery error)

def validateOptionalDemand (demand : Option RecoveryDemand) (group : UInt32) (blocks : Nat) :
    Protocol Unit :=
  match demand with
  | none => .ok ()
  | some demand => validateDemand demand group blocks

namespace QueryBundleRequest

def flags (self : QueryBundleRequest) : UInt16 :=
  self.waitForFullPrefix.toUInt16 ||| self.warmup.toUInt16 <<< 1 ||| self.discover.toUInt16 <<< 2 |||
    self.materialize.toUInt16 <<< 3 ||| self.prepare.toUInt16 <<< 4

def demandSize (demand : Option RecoveryDemand) (size : Nat) : Protocol Nat :=
  match demand with
  | none => return size
  | some demand => do
      let size ← addEncodedSize size 1 28
      addEncodedSize size demand.groups.length 20

def encodedSize (self : QueryBundleRequest) : Protocol Nat := do
  let size ← addEncodedSize requestHeaderBytes (asBytes self.instanceId).length 1
  let size ← addEncodedSize size (asBytes self.requestId).length 1
  let size ← addEncodedSize size self.blockHashes.length 4
  let size ← self.blockHashes.foldlM (fun size hash => addEncodedSize size hash.length 1) size
  demandSize self.demand size

def encodeDemand (demand : RecoveryDemand) (bytes : Bytes) : Protocol Bytes := do
  let bytes := pushU64 bytes demand.pageTokens
  let bytes := pushU64 bytes demand.span.start
  let bytes := pushU64 bytes demand.span.stop
  let bytes := pushU32 bytes (← checkedU32 demand.groups.length "recovery_groups")
  return demand.groups.foldl (fun bytes entry =>
    pushU64 (pushU64 (pushU32 bytes entry.1) entry.2.start) entry.2.stop) bytes

def encodeOptionalDemand (demand : Option RecoveryDemand) (bytes : Bytes) : Protocol Bytes :=
  match demand with
  | none => return bytes
  | some demand => encodeDemand demand bytes

def encode (self : QueryBundleRequest) : Protocol Bytes := do
  failIf (self.requestId.utf8ByteSize = 0) .emptyRequestId
  failIf (self.materialize ≠ self.demand.isSome) .invalidRecoveryDemand
  validateOptionalDemand self.demand self.groupId self.blockHashes.length
  let instanceId := asBytes self.instanceId
  let request := asBytes self.requestId
  withCapacity 1 (← self.encodedSize)
  let bytes := pushU32 [] queryRequestMagic
  let bytes := pushU16 bytes cacheProtocolVersion
  let bytes := pushU16 bytes self.flags
  let bytes ← self.ticket.encodeInto bytes
  let bytes := pushU32 bytes self.groupId
  let bytes := pushU32 bytes (← checkedU32 instanceId.length "instance_id")
  let bytes := pushU32 bytes (← checkedU32 request.length "request_id")
  let bytes := pushU32 bytes (← checkedU32 self.blockHashes.length "block_hashes")
  let bytes := bytes ++ instanceId ++ request
  let bytes ← self.blockHashes.foldlM (fun bytes hash => pushBytes bytes hash "block_hash") bytes
  encodeOptionalDemand self.demand bytes

def groupDecoder : Decode (UInt32 × TokenRange) := do
  let group ← u32
  let start ← u64
  let stop ← u64
  return (group, { start, stop })

def demandDecoder (groupId hashCount : UInt32) : Decode RecoveryDemand := do
  let pageTokens ← u64
  let start ← u64
  let stop ← u64
  let count ← usizeU32
  let groups ← list 20 24 count groupDecoder
  let demand : RecoveryDemand := { pageTokens, span := { start, stop }, groups }
  .lift (validateDemand demand groupId hashCount.toNat)
  return demand

def optionalDemandDecoder (flags : UInt16) (groupId hashCount : UInt32) :
    Decode (Option RecoveryDemand) :=
  if flags &&& 8 ≠ 0 then some <$> demandDecoder groupId hashCount else pure none

def decoder : Decode QueryBundleRequest := do
  expectMagic queryRequestMagic
  expectVersion
  let flags ← u16
  .rejectIf (flags &&& ~~~31 ≠ 0) (.invalidFlags flags)
  let ticket ← QueryTicket.decodeFrom
  let groupId ← u32
  let instanceLen ← usizeU32
  let requestLen ← usizeU32
  let hashCount ← usizeU32
  let instanceId ← string instanceLen "instance_id"
  let requestId ← string requestLen "request_id"
  .rejectIf (requestId.utf8ByteSize = 0) .emptyRequestId
  let blockHashes ← list 4 24 hashCount sized
  let demand ← optionalDemandDecoder flags groupId hashCount
  finish
  return {
    ticket, instanceId, requestId, blockHashes, groupId
    waitForFullPrefix := flags &&& 1 ≠ 0
    warmup := flags &&& 2 ≠ 0
    discover := flags &&& 4 ≠ 0
    materialize := flags &&& 8 ≠ 0
    prepare := flags &&& 16 ≠ 0
    demand }

def decode (bytes : Slice) : Protocol QueryBundleRequest :=
  decoder.run' (.new bytes)

end QueryBundleRequest

inductive QueryCommand where
  | submit (request : QueryBundleRequest)
  | poll (ticket : QueryTicket)
  | claim (ticket : QueryTicket) (countLookup : Bool)

namespace QueryCommand

/-- The encoding of a command on a ticket, `Poll` or `Claim`. -/
def encodeTicket (ticket : QueryTicket) (flags : UInt16) : Protocol Bytes := do
  withCapacity 1 24
  let bytes := pushU32 [] queryPollMagic
  let bytes := pushU16 bytes cacheProtocolVersion
  let bytes := pushU16 bytes flags
  ticket.encodeInto bytes

def encode : QueryCommand → Protocol Bytes
  | .submit request => request.encode
  | .poll ticket => encodeTicket ticket 0
  | .claim ticket countLookup => encodeTicket ticket ((1 : UInt16) ||| countLookup.toUInt16 <<< 1)

/-- The part of `decode` behind the magic of a command on a ticket. -/
def ticketDecoder : Decode QueryCommand := do
  expectVersion
  let flags ← u16
  .rejectIf (flags > 3 ∨ flags = 2) (.invalidFlags flags)
  let ticket ← QueryTicket.decodeFrom
  finish
  return if flags &&& 1 ≠ 0 then .claim ticket (flags &&& 2 ≠ 0) else .poll ticket

def decoder (bytes : Slice) : Decode QueryCommand := do
  let magic ← u32
  if magic = queryRequestMagic then
    .submit <$> .lift (QueryBundleRequest.decode bytes)
  else do
    .rejectIf (magic ≠ queryPollMagic) (.invalidMagic magic)
    ticketDecoder

def decode (bytes : Slice) : Protocol QueryCommand :=
  (decoder bytes).run' (.new bytes)

end QueryCommand

structure CancelQueryRequest where
  ticket : QueryTicket
  deriving DecidableEq, Repr

namespace CancelQueryRequest

def encode (self : CancelQueryRequest) : Protocol Bytes := do
  withCapacity 1 24
  let bytes := pushU32 [] cancelQueryMagic
  let bytes := pushU16 bytes cacheProtocolVersion
  let bytes := pushU16 bytes 0
  self.ticket.encodeInto bytes

def decoder : Decode CancelQueryRequest := do
  expectMagic cancelQueryMagic
  expectVersion
  let flags ← u16
  .rejectIf (flags ≠ 0) (.invalidFlags flags)
  let ticket ← QueryTicket.decodeFrom
  finish
  return { ticket }

def decode (bytes : Slice) : Protocol CancelQueryRequest :=
  decoder.run' (.new bytes)

end CancelQueryRequest

/-! ### Restores -/

structure RestoreLease where
  lease : Bytes
  blockIdsByGroup : List (List (Option UInt32))
  deriving DecidableEq, Repr

structure RestoreRequest where
  instanceId : String
  tpRank : UInt32
  deviceId : Int32
  layerGroups : List (List String)
  loads : List RestoreLease
  deriving DecidableEq, Repr

namespace RestoreRequest

def groupSize (size : Nat) (group : List String) : Protocol Nat := do
  let size ← addEncodedSize size 1 4
  group.foldlM (fun size layer => do
    let size ← addEncodedSize size 1 4
    addEncodedSize size (asBytes layer).length 1) size

def loadSize (size : Nat) (load : RestoreLease) : Protocol Nat := do
  let size ← addEncodedSize size 1 8
  let size ← addEncodedSize size load.lease.length 1
  load.blockIdsByGroup.foldlM (fun size targets => do
    let size ← addEncodedSize size 1 4
    addEncodedSize size targets.length 4) size

def encodedSize (self : RestoreRequest) : Protocol Nat := do
  let size ← addEncodedSize restoreHeaderBytes (asBytes self.instanceId).length 1
  let size ← self.layerGroups.foldlM groupSize size
  self.loads.foldlM loadSize size

def encodeGroup (bytes : Bytes) (group : List String) : Protocol Bytes := do
  let bytes := pushU32 bytes (← checkedU32 group.length "layer_group")
  group.foldlM (fun bytes layer => pushBytes bytes (asBytes layer) "layer_name") bytes

/-- `u32::MAX`, which stands for no target. -/
def noTarget : UInt32 := 0xffffffff

def encodeTargets (bytes : Bytes) (targets : List (Option UInt32)) : Protocol Bytes := do
  let bytes := pushU32 bytes (← checkedU32 targets.length "block_targets")
  return targets.foldl (fun bytes target => pushU32 bytes (target.getD noTarget)) bytes

def encodeLoad (bytes : Bytes) (load : RestoreLease) : Protocol Bytes := do
  let bytes ← pushBytes bytes load.lease "lease"
  let bytes := pushU32 bytes (← checkedU32 load.blockIdsByGroup.length "block_ids_by_group")
  load.blockIdsByGroup.foldlM encodeTargets bytes

def encode (self : RestoreRequest) : Protocol Bytes := do
  let instanceId := asBytes self.instanceId
  withCapacity 1 (← self.encodedSize)
  let bytes := pushU32 [] restoreRequestMagic
  let bytes := pushU16 bytes cacheProtocolVersion
  let bytes := pushU16 bytes 0
  let bytes := pushU32 bytes self.tpRank
  let bytes := pushI32 bytes self.deviceId
  let bytes := pushU32 bytes (← checkedU32 instanceId.length "instance_id")
  let bytes := pushU32 bytes (← checkedU32 self.layerGroups.length "layer_groups")
  let bytes := pushU32 bytes (← checkedU32 self.loads.length "loads")
  let bytes := bytes ++ instanceId
  let bytes ← self.layerGroups.foldlM encodeGroup bytes
  self.loads.foldlM encodeLoad bytes

def layerDecoder : Decode String := do
  let len ← usizeU32
  string len "layer_name"

def groupDecoder : Decode (List String) := do
  let layerCount ← usizeU32
  list 4 24 layerCount layerDecoder

def targetDecoder : Decode (Option UInt32) := do
  let target ← u32
  return if target ≠ noTarget then some target else none

def targetsDecoder : Decode (List (Option UInt32)) := do
  let targetCount ← usizeU32
  list 4 8 targetCount targetDecoder

def loadDecoder : Decode RestoreLease := do
  let lease ← sized
  .rejectIf (lease.length = 0) .emptyLease
  let targetGroupCount ← usizeU32
  let blockIdsByGroup ← list 4 24 targetGroupCount targetsDecoder
  return { lease, blockIdsByGroup }

def decoder : Decode RestoreRequest := do
  expectMagic restoreRequestMagic
  expectVersion
  let flags ← u16
  .rejectIf (flags ≠ 0) (.invalidFlags flags)
  let tpRank ← u32
  let deviceId ← i32
  let instanceLen ← usizeU32
  let groupCount ← usizeU32
  let loadCount ← usizeU32
  let instanceId ← string instanceLen "instance_id"
  let layerGroups ← list 4 24 groupCount groupDecoder
  let loads ← list 8 48 loadCount loadDecoder
  finish
  return { instanceId, tpRank, deviceId, layerGroups, loads }

def decode (bytes : Slice) : Protocol RestoreRequest :=
  decoder.run' (.new bytes)

end RestoreRequest

/-! ### Publications -/

structure PublishLayer where
  layerName : String
  blockIds : List UInt32
  blockHashes : List Bytes
  deriving DecidableEq, Repr

structure PublishRequest where
  instanceId : String
  registrationGeneration : Vector UInt8 16
  tpRank : UInt32
  ppRank : UInt32
  deviceId : Int32
  layers : List PublishLayer
  deriving DecidableEq, Repr

/-- A range of the blocks of a layer, `start..stop`. -/
structure BlockRange where
  start : Nat
  stop : Nat
  deriving DecidableEq, Repr

def validatePublishLayers (layers : List PublishLayer) : Protocol Unit :=
  layers.forM fun layer =>
    failIf (layer.blockIds.length ≠ layer.blockHashes.length)
      (.publishShapeMismatch layer.layerName layer.blockIds.length layer.blockHashes.length)

/-- `&blocks[range]`. -/
def sliceBlocks {α : Type} (blocks : List α) (range : BlockRange) : Protocol (List α) :=
  if range.start ≤ range.stop ∧ range.stop ≤ blocks.length then
    .ok ((blocks.take range.stop).drop range.start)
  else .error .panic

namespace PublishRequest

/-- The blocks of a layer that are encoded; none of a layer that the range misses. -/
def selected (range : Option BlockRange) (layer : PublishLayer) : Option BlockRange :=
  match range with
  | none => some ⟨0, layer.blockIds.length⟩
  | some range =>
    let stop := min range.stop layer.blockIds.length
    if stop ≤ range.start then none else some ⟨range.start, stop⟩

def layerSize (range : Option BlockRange) (size : Nat) (layer : PublishLayer) : Protocol Nat :=
  match selected range layer with
  | none => return size
  | some selected => do
      let count := selected.stop - selected.start
      let _ ← checkedU32 (asBytes layer.layerName).length "layer_name"
      let _ ← checkedU32 count "block_ids"
      let size ← addEncodedSize size 1 8
      let size ← addEncodedSize size (asBytes layer.layerName).length 1
      let size ← addEncodedSize size count 8
      let hashes ← sliceBlocks layer.blockHashes selected
      hashes.foldlM (fun size hash => do
        let _ ← checkedU32 hash.length "block_hash"
        addEncodedSize size hash.length 1) size

def encodedLen (self : PublishRequest) (range : Option BlockRange) : Protocol Nat := do
  failIf (self.registrationGeneration = .replicate 16 0) .invalidRegistrationGeneration
  validatePublishLayers self.layers
  let _ ← checkedU32 (asBytes self.instanceId).length "instance_id"
  let _ ← checkedU32 self.layers.length "layers"
  let size ← addEncodedSize publishHeaderBytes (asBytes self.instanceId).length 1
  self.layers.foldlM (layerSize range) size

def encodeBlock (bytes : Bytes) (block : UInt32 × Bytes) : Protocol Bytes :=
  pushBytes (pushU32 bytes block.1) block.2 "block_hash"

def encodeLayer (range : Option BlockRange) (bytes : Bytes) (layer : PublishLayer) :
    Protocol Bytes :=
  match selected range layer with
  | none => return bytes
  | some selected => do
      let name := asBytes layer.layerName
      let bytes := pushU32 bytes (← checkedU32 name.length "layer_name")
      let bytes := pushU32 bytes (← checkedU32 (selected.stop - selected.start) "block_ids")
      let ids ← sliceBlocks layer.blockIds selected
      let hashes ← sliceBlocks layer.blockHashes selected
      (ids.zip hashes).foldlM encodeBlock (bytes ++ name)

def encodeRange (self : PublishRequest) (range : Option BlockRange) : Protocol Bytes := do
  withCapacity 1 (← self.encodedLen range)
  let instanceId := asBytes self.instanceId
  let bytes := pushU32 [] publishRequestMagic
  let bytes := pushU16 bytes cacheProtocolVersion
  let bytes := pushU16 bytes 0
  let bytes := pushU32 bytes self.tpRank
  let bytes := pushU32 bytes self.ppRank
  let bytes := pushI32 bytes self.deviceId
  let bytes := pushU32 bytes (← checkedU32 instanceId.length "instance_id")
  let layerCount := self.layers.countP fun layer => (selected range layer).isSome
  let bytes := pushU32 bytes (← checkedU32 layerCount "layers")
  let bytes := bytes ++ self.registrationGeneration.toList ++ instanceId
  self.layers.foldlM (encodeLayer range) bytes

def encode (self : PublishRequest) : Protocol Bytes :=
  self.encodeRange none

/-- `<[u8; 16]>::try_from`. -/
def generationOf (raw : Bytes) : Protocol (Vector UInt8 16) :=
  if hlen : raw.length = 16 then .ok ⟨raw.toArray, by simpa using hlen⟩
  else fail .truncated

def blockDecoder : Decode (UInt32 × Bytes) := do
  let blockId ← u32
  let hash ← sized
  return (blockId, hash)

def layerDecoder : Decode PublishLayer := do
  let nameLen ← usizeU32
  let blockCount ← usizeU32
  let layerName ← string nameLen "layer_name"
  let left ← Scan.remaining
  .rejectIf (left / 8 < blockCount.toNat) .truncated
  -- the identifiers and the hashes go to two vectors
  Scan.lift (withCapacity 4 blockCount.toNat)
  let blocks ← vec 24 blockCount blockDecoder
  return { layerName, blockIds := blocks.map (·.1), blockHashes := blocks.map (·.2) }

def decoder : Decode PublishRequest := do
  expectMagic publishRequestMagic
  expectVersion
  let flags ← u16
  .rejectIf (flags ≠ 0) (.invalidFlags flags)
  let tpRank ← u32
  let ppRank ← u32
  let deviceId ← i32
  let instanceLen ← usizeU32
  let layerCount ← usizeU32
  let registrationGeneration ← .lift (generationOf (← bytes 16))
  .rejectIf (registrationGeneration = .replicate 16 0) .invalidRegistrationGeneration
  let instanceId ← string instanceLen "instance_id"
  let layers ← list 8 72 layerCount layerDecoder
  finish
  .lift (validatePublishLayers layers)
  return { instanceId, registrationGeneration, tpRank, ppRank, deviceId, layers }

def decode (bytes : Slice) : Protocol PublishRequest :=
  decoder.run' (.new bytes)

end PublishRequest

/-! ### Releases -/

structure ReleaseRequest where
  lease : Bytes
  deriving DecidableEq, Repr

namespace ReleaseRequest

def encode (self : ReleaseRequest) : Protocol Bytes := do
  withCapacity 1 (releaseHeaderBytes + self.lease.length)
  let bytes := pushU32 [] releaseRequestMagic
  let bytes := pushU16 bytes cacheProtocolVersion
  let bytes := pushU16 bytes 0
  let bytes := pushU32 bytes (← checkedU32 self.lease.length "lease")
  return bytes ++ self.lease

def decoder : Decode ReleaseRequest := do
  expectMagic releaseRequestMagic
  expectVersion
  let flags ← u16
  .rejectIf (flags ≠ 0) (.invalidFlags flags)
  let lease ← sized
  finish
  .rejectIf (lease.length = 0) .emptyLease
  return { lease }

def decode (bytes : Slice) : Protocol ReleaseRequest :=
  decoder.run' (.new bytes)

end ReleaseRequest

/-! ### Responses -/

inductive QueryOutcomeCode where
  | ready
  | loading
  | busy
  | candidates
  deriving DecidableEq, Repr

def QueryOutcomeCode.code : QueryOutcomeCode → UInt16
  | .ready => 1
  | .loading => 2
  | .busy => 3
  | .candidates => 4

def QueryOutcomeCode.tryFrom (value : UInt16) : Protocol QueryOutcomeCode :=
  if value = 1 then .ok .ready
  else if value = 2 then .ok .loading
  else if value = 3 then .ok .busy
  else if value = 4 then .ok .candidates
  else fail (.unknownOutcome value)

structure QueryBundleResponse where
  outcome : QueryOutcomeCode
  numHitBlocks : UInt64
  lease : Bytes
  hitPositions : List UInt32
  deriving DecidableEq, Repr

namespace QueryBundleResponse

def encode (self : QueryBundleResponse) : Protocol Bytes := do
  withCapacity 1 (responseHeaderBytes + self.lease.length + self.hitPositions.length * 4)
  let bytes := pushU32 [] queryResponseMagic
  let bytes := pushU16 bytes cacheProtocolVersion
  let bytes := pushU16 bytes self.outcome.code
  let bytes := pushU64 bytes self.numHitBlocks
  let bytes := pushU32 bytes (← checkedU32 self.lease.length "lease")
  let bytes := pushU32 bytes (← checkedU32 self.hitPositions.length "hit_positions")
  return self.hitPositions.foldl pushU32 (bytes ++ self.lease)

def unordered (positions : List UInt32) : Bool :=
  (positions.zip positions.tail).any fun pair => pair.2 ≤ pair.1

def decoder : Decode QueryBundleResponse := do
  expectMagic queryResponseMagic
  expectVersion
  let outcome ← .lift (QueryOutcomeCode.tryFrom (← u16))
  let numHitBlocks ← u64
  let leaseLen ← usizeU32
  let positionsLen ← usizeU32
  let lease ← bytes leaseLen.toNat
  let hitPositions ← list 4 4 positionsLen u32
  finish
  .rejectIf ((outcome = .loading ∨ outcome = .busy) ∧
    (numHitBlocks ≠ 0 ∨ lease ≠ [] ∨ hitPositions ≠ [])) .invalidLoadingPayload
  .rejectIf (outcome = .candidates ∧
    (lease ≠ [] ∨ numHitBlocks ≠ UInt64.ofNat hitPositions.length ∨ unordered hitPositions))
    .invalidCandidates
  return { outcome, numHitBlocks, lease, hitPositions }

def decode (bytes : Slice) : Protocol QueryBundleResponse :=
  decoder.run' (.new bytes)

end QueryBundleResponse

structure ShardQueryResponse where
  outcome : QueryOutcomeCode
  numHitBlocks : UInt64
  leases : List Bytes
  controlId : Bytes
  deriving DecidableEq, Repr

namespace ShardQueryResponse

def maxShards : Nat := 32

def nonzeroId (bytes : Bytes) : Bool :=
  bytes.length = 16 && bytes.any (· ≠ 0)

def outcomeValid (self : ShardQueryResponse) : Bool :=
  match self.outcome with
  | .ready =>
    if 0 < self.numHitBlocks then
      !self.leases.isEmpty && nonzeroId self.controlId && self.leases.all nonzeroId
    else !self.leases.isEmpty && self.controlId.isEmpty && self.leases.all List.isEmpty
  | .loading | .busy => self.numHitBlocks = 0 && self.leases.isEmpty && self.controlId.isEmpty
  | .candidates => false

def validate (self : ShardQueryResponse) : Protocol Unit :=
  failIf (¬ (self.leases.length ≤ maxShards ∧ self.outcomeValid)) .invalidShardPayload

def encodeLease (bytes lease : Bytes) : Bytes :=
  pushU16 bytes (UInt16.ofNat lease.length) ++ lease

def encode (self : ShardQueryResponse) : Protocol Bytes := do
  self.validate
  withCapacity 1 (24 + 16 * (self.leases.length + 1))
  let bytes := pushU32 [] shardResponseMagic
  let bytes := pushU16 bytes cacheProtocolVersion
  let bytes := pushU16 bytes self.outcome.code
  let bytes := pushU64 bytes self.numHitBlocks
  let bytes := pushU32 bytes (UInt32.ofNat self.leases.length)
  let bytes := pushU32 bytes (UInt32.ofNat self.controlId.length)
  return self.leases.foldl encodeLease (bytes ++ self.controlId)

def leaseDecoder : Decode Bytes := do
  let len ← u16
  .rejectIf (¬ (len = 0 ∨ len = 16)) .invalidShardPayload
  bytes len.toNat

def decoder : Decode ShardQueryResponse := do
  expectMagic shardResponseMagic
  expectVersion
  let outcome ← .lift (QueryOutcomeCode.tryFrom (← u16))
  let numHitBlocks ← u64
  let count ← usizeU32
  let controlLen ← usizeU32
  .rejectIf (maxShards < count.toNat ∨ ¬ (controlLen = 0 ∨ controlLen = 16)) .invalidShardPayload
  let controlId ← bytes controlLen.toNat
  let leases ← vec 24 count leaseDecoder
  finish
  let response : ShardQueryResponse := { outcome, numHitBlocks, leases, controlId }
  .lift response.validate
  return response

def decode (bytes : Slice) : Protocol ShardQueryResponse :=
  decoder.run' (.new bytes)

end ShardQueryResponse

end OrbitKV
