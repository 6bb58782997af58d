import OrbitKV.Proof.CacheCodec
import OrbitKV.Proof.RecoveryDemand

/-!
# The formats of the cache protocol

The wire image of each message, what its decoder asks of a value and what its encoder asks.
-/

namespace OrbitKV

open Decoder Scan List

theorem checkedU32_eq_ok {value : Nat} {field : String} {word : UInt32} :
    checkedU32 value field = .ok word ↔ value < 2 ^ 32 ∧ word = UInt32.ofNat value := by
  unfold checkedU32 fail
  split_ifs with hvalue
  · simp only [Except.ok.injEq, hvalue, true_and, eq_comm]
  · simp only [hvalue, false_and]

theorem appends_pushBytes (value : Bytes) (field : String) :
    Appends (fun bytes => pushBytes bytes value field) (value.length < 2 ^ 32)
      (leBytes 4 value.length ++ value) := by
  intro b b'
  simp only [pushBytes, bind_eq_ok_iff, checkedU32_eq_ok, pushU32, pure_eq_ok]
  simp

theorem grows_addEncodedSize (count width : Nat) :
    Grows (fun size => addEncodedSize size count width) True (count * width) := by
  intro size size' hsize
  have hmax : isizeMax < 2 ^ 64 := by
    unfold isizeMax
    omega
  simp only [addEncodedSize, fail]
  split_ifs with hfits
  · simp only [Except.ok.injEq, true_and]
    omega
  · simp only [true_and, false_iff, not_and]
    omega

/-! ### Tickets -/

namespace QueryTicket

def Valid (ticket : QueryTicket) : Prop :=
  ticket.operationId ≠ 0 ∧ ticket.revision ≠ 0

def wire (ticket : QueryTicket) : Bytes :=
  leBytes 8 ticket.operationId.toNat ++ leBytes 8 ticket.revision.toNat

theorem reads_decodeFrom : Reads decodeFrom Valid wire := by
  rintro c ⟨operationId, revision⟩ c'
  simp [-StateT.run_bind, -StateT.run_pure, -bind_pure_comp, decodeFrom, Valid, wire, and_comm,
    and_left_comm]

theorem appends_encodeInto (ticket : QueryTicket) :
    Appends ticket.encodeInto ticket.Valid ticket.wire := by
  intro b b'
  simp only [encodeInto, bind_eq_ok_iff, failIf_eq_ok, pushU64, pure_eq_ok,
    Valid, not_or, wire, append_assoc]
  simp

end QueryTicket

/-! ### Cancellations -/

namespace CancelQueryRequest

def Valid (request : CancelQueryRequest) : Prop :=
  request.ticket.Valid

def wire (request : CancelQueryRequest) : Bytes :=
  [leBytes 4 cancelQueryMagic.toNat, leBytes 2 cacheProtocolVersion.toNat,
    leBytes 2 (0 : UInt16).toNat, request.ticket.wire].flatten

theorem decodes : Decodes decode Valid wire := by
  apply Scan.ReadsAll.decodes
  rintro c ⟨ticket⟩ c'
  simp [-StateT.run_bind, -StateT.run_pure, -bind_pure_comp, decoder,
    QueryTicket.reads_decodeFrom _ _ _, Valid, wire,
    and_assoc, ← exists_and_right]

theorem encodes : Encodes encode Valid wire := by
  intro request b
  have hlength : request.wire.length = 24 := by simp [wire, QueryTicket.wire]
  simp only [encode, bind_eq_ok_iff, withCapacity_eq_ok, pushU32, pushU16,
    request.ticket.appends_encodeInto _ _, hlength]
  simp [wire, Valid, isizeMax]

end CancelQueryRequest

/-! ### Releases -/

namespace ReleaseRequest

def Fits (request : ReleaseRequest) : Prop :=
  request.lease.length < 2 ^ 32

def Valid (request : ReleaseRequest) : Prop :=
  request.Fits ∧ request.lease.length ≠ 0

def wire (request : ReleaseRequest) : Bytes :=
  [leBytes 4 releaseRequestMagic.toNat, leBytes 2 cacheProtocolVersion.toNat,
    leBytes 2 (0 : UInt16).toNat, leBytes 4 request.lease.length ++ request.lease].flatten

theorem decodes : Decodes decode Valid wire := by
  apply Scan.ReadsAll.decodes
  rintro c ⟨lease⟩ c'
  simp [-StateT.run_bind, -StateT.run_pure, -bind_pure_comp, decoder, reads_sized _ _ _, Valid,
    Fits, wire, and_assoc,
    ← exists_and_right]

theorem encodes : Encodes encode Fits wire := by
  intro request b
  have hlength : request.wire.length = releaseHeaderBytes + request.lease.length := by
    simp [wire, releaseHeaderBytes]
    omega
  simp only [encode, bind_eq_ok_iff, withCapacity_eq_ok, checkedU32_eq_ok, pushU32, pushU16,
    pure_eq_ok, hlength, Nat.one_mul]
  simp [wire, Fits, existsAndEq, and_left_comm]

end ReleaseRequest

/-! ### Responses -/

variable {value : UInt16}

theorem QueryOutcomeCode.tryFrom_eq_ok {outcome : QueryOutcomeCode} :
    tryFrom value = .ok outcome ↔ value = outcome.code := by
  constructor
  · intro hok
    unfold tryFrom at hok
    split_ifs at hok <;> cases hok <;> assumption
  · rintro rfl
    cases outcome <;> rfl

namespace QueryBundleResponse

def Fits (response : QueryBundleResponse) : Prop :=
  response.lease.length < 2 ^ 32 ∧ response.hitPositions.length < 2 ^ 32

def Valid (response : QueryBundleResponse) : Prop :=
  response.Fits ∧
    ¬ ((response.outcome = .loading ∨ response.outcome = .busy) ∧
      (response.numHitBlocks ≠ 0 ∨ response.lease ≠ [] ∨ response.hitPositions ≠ [])) ∧
    ¬ (response.outcome = .candidates ∧
      (response.lease ≠ [] ∨ response.numHitBlocks ≠ UInt64.ofNat response.hitPositions.length ∨
        unordered response.hitPositions))

def wire (response : QueryBundleResponse) : Bytes :=
  [leBytes 4 queryResponseMagic.toNat, leBytes 2 cacheProtocolVersion.toNat,
    leBytes 2 response.outcome.code.toNat, leBytes 8 response.numHitBlocks.toNat,
    leBytes 4 response.lease.length, leBytes 4 response.hitPositions.length, response.lease,
    response.hitPositions.flatMap fun position => leBytes 4 position.toNat].flatten

theorem decodes : Decodes decode Valid wire := by
  apply Scan.ReadsAll.decodes
  rintro c ⟨outcome, hits, lease, positions⟩ c'
  simp [-StateT.run_bind, -StateT.run_pure, -bind_pure_comp, decoder, QueryOutcomeCode.tryFrom_eq_ok,
    run_list reads_u32 (by decide : 0 < 4) (fun _ _ => by simp) (by decide : 4 ≤ 72), Valid, Fits, wire,
    and_assoc, ← exists_and_right]

theorem encodes : Encodes encode Fits wire := by
  intro response b
  have hpositions : (response.hitPositions.flatMap fun position => leBytes 4 position.toNat).length =
      response.hitPositions.length * 4 := by
    simp [length_flatMap]
  have hlength : response.wire.length =
      responseHeaderBytes + response.lease.length + response.hitPositions.length * 4 := by
    simp only [wire, length_flatten, map_cons, map_nil, sum_cons, sum_nil,
      length_leBytes, hpositions, responseHeaderBytes]
    omega
  have hpush : ∀ b : Bytes, response.hitPositions.foldl pushU32 b =
      b ++ response.hitPositions.flatMap fun position => leBytes 4 position.toNat :=
    foldl_append_flatMap (fun _ _ => rfl) _
  simp only [encode, bind_eq_ok_iff, withCapacity_eq_ok, checkedU32_eq_ok, hpush, pure_eq_ok,
    hlength, Nat.one_mul]
  simp [wire, Fits, pushU32, pushU16, pushU64, and_assoc, and_left_comm]

end QueryBundleResponse

namespace ShardQueryResponse

def IdLength (bytes : Bytes) : Prop :=
  bytes.length = 0 ∨ bytes.length = 16

def Valid (response : ShardQueryResponse) : Prop :=
  response.leases.length ≤ maxShards ∧ response.outcomeValid

def wire (response : ShardQueryResponse) : Bytes :=
  [leBytes 4 shardResponseMagic.toNat, leBytes 2 cacheProtocolVersion.toNat,
    leBytes 2 response.outcome.code.toNat, leBytes 8 response.numHitBlocks.toNat,
    leBytes 4 response.leases.length, leBytes 4 response.controlId.length, response.controlId,
    response.leases.flatMap fun lease => leBytes 2 lease.length ++ lease].flatten

theorem validate_eq_ok {response : ShardQueryResponse} {u : Unit} :
    response.validate = .ok u ↔ response.Valid := by
  rw [validate, failIf_eq_ok, not_not, Valid]

theorem idLength_of_nonzeroId {bytes : Bytes} (hid : nonzeroId bytes = true) : IdLength bytes := by
  simp only [nonzeroId, Bool.and_eq_true, decide_eq_true_eq] at hid
  exact .inr hid.1

theorem idLength_of_isEmpty {bytes : Bytes} (hempty : bytes.isEmpty = true) : IdLength bytes := by
  rw [List.isEmpty_iff] at hempty
  exact .inl (by rw [hempty, length_nil])

theorem Valid.idLength {response : ShardQueryResponse} (hvalid : response.Valid) :
    IdLength response.controlId ∧ ∀ lease ∈ response.leases, IdLength lease := by
  obtain ⟨-, houtcome⟩ := hvalid
  unfold outcomeValid at houtcome
  split at houtcome
  · split_ifs at houtcome
    · simp only [Bool.and_eq_true, all_eq_true] at houtcome
      exact ⟨idLength_of_nonzeroId houtcome.1.2,
        fun lease hlease => idLength_of_nonzeroId (houtcome.2 lease hlease)⟩
    · simp only [Bool.and_eq_true, all_eq_true] at houtcome
      exact ⟨idLength_of_isEmpty houtcome.1.2,
        fun lease hlease => idLength_of_isEmpty (houtcome.2 lease hlease)⟩
  iterate 2
    · simp only [Bool.and_eq_true, List.isEmpty_iff] at houtcome
      refine ⟨.inl (by rw [houtcome.2, length_nil]), ?_⟩
      rw [houtcome.1.2]
      exact fun lease hlease => absurd hlease not_mem_nil
  · cases houtcome

theorem reads_leaseDecoder :
    Reads leaseDecoder IdLength (fun lease => leBytes 2 lease.length ++ lease) := by
  intro c lease c'
  simp only [leaseDecoder, run_bind_eq_ok, run_u16, run_rejectIf_eq_ok, run_bytes, not_not,
    Cursor.takes_append, IdLength]
  constructor
  · rintro ⟨len, _, hlen, -, c₁, ⟨hid, rfl⟩, hlength, htakes⟩
    rw [hlength]
    refine ⟨?_, c₁, hlen, htakes⟩
    rcases hid with rfl | rfl
    · exact .inl rfl
    · exact .inr rfl
  · rintro ⟨hid, c₁, hlen, htakes⟩
    have hword : (UInt16.ofNat lease.length).toNat = lease.length :=
      UInt16.toNat_ofNat_of_lt' (by rcases hid with h | h <;> rw [h] <;> decide)
    rw [← hword] at hlen
    refine ⟨_, c₁, hlen, (), c₁, ⟨?_, rfl⟩, hword.symm, htakes⟩
    rcases hid with h | h
    · exact .inl (by rw [h]; rfl)
    · exact .inr (by rw [h]; rfl)

theorem decodes : Decodes decode Valid wire := by
  apply Scan.ReadsAll.decodes
  rintro c ⟨outcome, hits, leases, controlId⟩ c'
  simp [-StateT.run_bind, -StateT.run_pure, -bind_pure_comp, decoder, QueryOutcomeCode.tryFrom_eq_ok,
    run_vec reads_leaseDecoder (by decide : 24 ≤ 72), validate_eq_ok, wire, and_assoc,
    ← exists_and_right]
  constructor
  · rintro ⟨-, -, -, -, -, hvalid, htakes⟩
    exact ⟨hvalid, htakes⟩
  · rintro ⟨hvalid, htakes⟩
    obtain ⟨hcontrol, hleases⟩ := hvalid.idLength
    have hmax : leases.length ≤ 32 := hvalid.1
    refine ⟨(Nat.mod_le _ _).trans hmax, ?_, ?_, by omega, hleases, hvalid, htakes⟩
    · rcases hcontrol with h | h
      · exact fun hne => absurd (by rw [h]; rfl) hne
      · exact fun _ => by rw [h]; rfl
    · rcases hcontrol with h | h <;> exact h ▸ by decide

theorem encodes : Encodes encode Valid wire := by
  intro response b
  have hpush : ∀ b : Bytes, response.leases.foldl encodeLease b =
      b ++ response.leases.flatMap fun lease => leBytes 2 lease.length ++ lease := by
    apply foldl_append_flatMap
    intro b lease
    rw [encodeLease, pushU16, leBytes_uint16_ofNat, append_assoc]
  simp only [encode, bind_eq_ok_iff, withCapacity_eq_ok, validate_eq_ok, hpush, pure_eq_ok, Nat.one_mul]
  constructor
  · rintro ⟨-, hvalid, -, -, rfl⟩
    refine ⟨hvalid, ?_, ?_⟩
    · have hleases : (response.leases.flatMap fun lease =>
          leBytes 2 lease.length ++ lease).length ≤ response.leases.length * 18 := by
        rw [length_flatMap]
        refine (sum_le_card_nsmul _ 18 ?_).trans_eq (by simp)
        intro n hn
        obtain ⟨lease, hlease, rfl⟩ := List.mem_map.mp hn
        rcases hvalid.idLength.2 lease hlease with h | h <;> simp [h]
      have hmax := hvalid.1
      unfold maxShards at hmax
      simp only [wire, length_flatten, map_cons, map_nil, sum_cons,
        sum_nil, length_leBytes, isizeMax]
      generalize (response.leases.flatMap fun lease => leBytes 2 lease.length ++ lease).length =
        total at hleases ⊢
      rcases hvalid.idLength.1 with h | h <;> omega
    · simp [wire, pushU32, pushU16, pushU64]
  · rintro ⟨hvalid, -, rfl⟩
    have hmax := hvalid.1
    refine ⟨(), hvalid, (), ?_, ?_⟩
    · unfold maxShards at hmax
      unfold isizeMax
      omega
    · simp [wire, pushU32, pushU16, pushU64]

end ShardQueryResponse

/-! ### Completion observations -/

theorem CompletionIntent.tryFrom_eq_ok {intent : CompletionIntent} :
    tryFrom value = .ok intent ↔ value = intent.code := by
  constructor
  · intro hok
    unfold tryFrom at hok
    split_ifs at hok <;> cases hok <;> assumption
  · rintro rfl
    cases intent <;> rfl

theorem CompletionRoute.tryFrom_eq_ok {route : CompletionRoute} :
    tryFrom value = .ok route ↔ value = route.code := by
  constructor
  · intro hok
    unfold tryFrom at hok
    split_ifs at hok <;> cases hok
    assumption
  · rintro rfl
    cases route
    rfl

theorem CompletionAdmission.tryFrom_eq_ok {admission : CompletionAdmission} :
    tryFrom value = .ok admission ↔ value = admission.code := by
  constructor
  · intro hok
    unfold tryFrom at hok
    split_ifs at hok <;> cases hok <;> assumption
  · rintro rfl
    cases admission <;> rfl

theorem CompletionOutcome.tryFrom_eq_ok {outcome : CompletionOutcome} :
    tryFrom value = .ok outcome ↔ value = outcome.code := by
  constructor
  · intro hok
    unfold tryFrom at hok
    split_ifs at hok <;> cases hok <;> assumption
  · rintro rfl
    cases outcome <;> rfl

theorem decodeRepresentation_eq_ok {representation : ReplicaRepresentation} :
    decodeRepresentation value = .ok representation ↔
      representation ≠ .unknown ∧ value = representationCode representation := by
  constructor
  · intro hok
    unfold decodeRepresentation at hok
    split_ifs at hok
    all_goals first | (cases hok; exact ⟨by decide, by assumption⟩) | cases hok
  · rintro ⟨hknown, rfl⟩
    cases representation with
    | unknown => exact absurd rfl hknown
    | raw | ans | fp8 | turboQuant | mixed => rfl

namespace CompletionObservationRequest

def Valid (request : CompletionObservationRequest) : Prop :=
  request.validate = .ok () ∧ (asBytes request.instanceId).length < 2 ^ 32 ∧
    (asBytes request.sourceEndpoint).length < 2 ^ 32

def wire (request : CompletionObservationRequest) : Bytes :=
  [leBytes 4 completionObservationMagic.toNat, leBytes 2 cacheProtocolVersion.toNat,
    leBytes 2 (0 : UInt16).toNat, leBytes 2 request.intent.code.toNat,
    leBytes 2 request.route.code.toNat, leBytes 2 (representationCode request.representation).toNat,
    leBytes 2 request.admission.code.toNat, leBytes 2 request.outcome.code.toNat,
    leBytes 2 (0 : UInt16).toNat, leBytes 4 request.destinationDeviceId.toUInt32.toNat,
    leBytes 4 (asBytes request.instanceId).length, leBytes 4 (asBytes request.sourceEndpoint).length,
    leBytes 8 request.transferGeneration.toNat, leBytes 8 request.logicalBytes.toNat,
    leBytes 8 request.wireBytes.toNat, leBytes 4 request.fragmentCount.toNat,
    leBytes 4 (0 : UInt32).toNat, leBytes 8 request.elapsedNs.toNat,
    leBytes 8 request.decodePageBytes.toNat, leBytes 4 request.handoffQueueDepth.toNat,
    leBytes 4 request.handoffQueueParallelism.toNat, leBytes 8 request.tentInflightBytes.toNat,
    leBytes 8 request.tentBandwidthBytesPerSecond.toNat, asBytes request.instanceId,
    asBytes request.sourceEndpoint].flatten

theorem Valid.known {request : CompletionObservationRequest} (hvalid : request.Valid) :
    request.representation ≠ .unknown := by
  have hvalidate := hvalid.1
  simp only [validate, bind_eq_ok_iff, failIf_eq_ok] at hvalidate
  tauto

theorem decodes : Decodes decode Valid wire := by
  apply Scan.ReadsAll.decodes
  have hroute : ∀ p : CompletionRoute → Prop, (∃ route, p route) ↔ p .prefillToDecodeHandoff :=
    fun _ => ⟨fun ⟨⟨⟩, h⟩ => h, fun h => ⟨_, h⟩⟩
  rintro c ⟨_, _, _, _, _, ⟨⟩, _⟩ c'
  simp only [decoder, run_bind_eq_ok, run_expectMagic, run_expectVersion, run_u16, run_u32, run_i32,
    run_u64, run_usizeU32, run_string, run_lift_eq_ok, CompletionIntent.tryFrom_eq_ok,
    CompletionRoute.tryFrom_eq_ok, CompletionAdmission.tryFrom_eq_ok,
    CompletionOutcome.tryFrom_eq_ok, decodeRepresentation_eq_ok, run_rejectIf_eq_ok, run_finish,
    run_pure_eq_ok, ne_eq, not_not, and_assoc, exists_const, mk.injEq, eq_toNat_iff, hroute]
  simp only [existsAndEq, and_true]
  simp only [wire, flatten_cons, flatten_nil, append_nil, Cursor.takes_append,
    Cursor.takes_end_and, Cursor.exists_takes_and, exists_and_left, ← exists_and_right, and_assoc,
    true_and, leBytes_uint32_ofNat, Unique.exists_iff]
  constructor
  · rintro ⟨-, hinstance, hsource, hvalid, htakes⟩
    exact ⟨⟨hvalid, hinstance, hsource⟩, htakes⟩
  · rintro ⟨hvalid, htakes⟩
    exact ⟨hvalid.known, hvalid.2.1, hvalid.2.2, hvalid.1, htakes⟩

theorem encodes : Encodes encode Valid wire := by
  intro request b
  have hlength : request.wire.length = completionObservationHeaderBytes +
      (asBytes request.instanceId).length + (asBytes request.sourceEndpoint).length := by
    simp only [wire, length_flatten, map_cons, map_nil, sum_cons, sum_nil,
      length_leBytes, completionObservationHeaderBytes]
    omega
  simp only [encode, bind_eq_ok_iff, withCapacity_eq_ok, checkedU32_eq_ok, pure_eq_ok, hlength,
    Nat.one_mul]
  simp [wire, Valid, pushU32, pushU16, pushU64, pushI32, and_assoc, and_left_comm, Unique.exists_iff]

end CompletionObservationRequest

end OrbitKV
