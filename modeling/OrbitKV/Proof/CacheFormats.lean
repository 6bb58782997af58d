import OrbitKV.Proof.CacheQueries

/-! # Round trips, canonical encodings and hostile input -/

namespace OrbitKV

open Decoder Scan

/-! ### The methods of the decoder do not panic -/

instance {len : Nat} : Calm (bytes len) := by
  unfold bytes
  infer_instance

instance {width : Nat} : Calm (fixed width) where
  noPanic c := by
    have hbytes : Calm (bytes width) := inferInstance
    rw [fixed, StateT.run_bind]
    refine (hbytes.noPanic c).bind fun result hresult => ?_
    -- the slice that `bytes` returns has the length that was asked for
    obtain ⟨raw, c'⟩ := result
    obtain ⟨hlen, -⟩ := run_bytes.mp hresult
    rw [if_pos hlen]
    exact noPanic_ok _

instance : Calm u16 := by
  unfold u16
  infer_instance

instance : Calm u32 := by
  unfold u32
  infer_instance

instance : Calm i32 := by
  unfold i32
  infer_instance

instance : Calm u64 := by
  unfold u64
  infer_instance

instance : Calm usizeU32 := by
  unfold usizeU32
  infer_instance

instance {expected : UInt32} : Calm (expectMagic expected) := by
  unfold expectMagic
  infer_instance

instance : Calm expectVersion := by
  unfold expectVersion
  infer_instance

instance {raw : Bytes} {field : String} : Calm (Scan.lift (fromUtf8 raw field)) := by
  apply calm_lift
  unfold fromUtf8
  split
  · exact noPanic_ok _
  · exact noPanic_fail _

instance {len : UInt32} {field : String} : Calm (string len field) := by
  unfold string
  infer_instance

instance : Calm finish := by
  unfold finish
  infer_instance

instance : Calm sized := by
  unfold sized
  infer_instance

section Lists

variable {α : Type} {item : Decode α}

theorem calm_vec (hitem : Calm item) {elementSize : Nat} (hsize : elementSize ≤ 72)
    (count : UInt32) : Calm (vec elementSize count item) := by
  have hcapacity : Calm (Scan.lift (withCapacity elementSize count.toNat) : Decode Unit) :=
    calm_lift (noPanic_withCapacity (capacity_fits hsize count))
  unfold vec
  infer_instance

theorem calm_list (hitem : Calm item) {elementSize : Nat} (hsize : elementSize ≤ 72) (width : Nat)
    (count : UInt32) : Calm (list width elementSize count item) := by
  have hvec := calm_vec hitem hsize count
  unfold list
  infer_instance

end Lists

/-! ### The decoders do not panic -/

-- the instance of a whole decoder has a part for each of its reads
set_option synthInstance.maxSize 8192

instance : Calm QueryTicket.decodeFrom := by
  unfold QueryTicket.decodeFrom
  infer_instance

instance : Calm CancelQueryRequest.decoder := by
  unfold CancelQueryRequest.decoder
  infer_instance

instance : Calm ReleaseRequest.decoder := by
  unfold ReleaseRequest.decoder
  infer_instance

section Codes

variable {value : UInt16}

instance : Calm (Scan.lift (QueryOutcomeCode.tryFrom value)) := by
  apply calm_lift
  unfold QueryOutcomeCode.tryFrom
  split_ifs <;> simp

instance : Calm (Scan.lift (CompletionIntent.tryFrom value)) := by
  apply calm_lift
  unfold CompletionIntent.tryFrom
  split_ifs <;> simp

instance : Calm (Scan.lift (CompletionRoute.tryFrom value)) := by
  apply calm_lift
  unfold CompletionRoute.tryFrom
  split_ifs <;> simp

instance : Calm (Scan.lift (CompletionAdmission.tryFrom value)) := by
  apply calm_lift
  unfold CompletionAdmission.tryFrom
  split_ifs <;> simp

instance : Calm (Scan.lift (CompletionOutcome.tryFrom value)) := by
  apply calm_lift
  unfold CompletionOutcome.tryFrom
  split_ifs <;> simp

instance : Calm (Scan.lift (decodeRepresentation value)) := by
  apply calm_lift
  unfold decodeRepresentation
  split_ifs <;> simp

end Codes

instance : Calm QueryBundleResponse.decoder := by
  have hlist := calm_list (inferInstance : Calm u32) (by decide : 4 ≤ 72) 4
  unfold QueryBundleResponse.decoder
  infer_instance

instance : Calm ShardQueryResponse.leaseDecoder := by
  unfold ShardQueryResponse.leaseDecoder
  infer_instance

instance {response : ShardQueryResponse} : Calm (Scan.lift response.validate) :=
  calm_lift (noPanic_failIf _ _)

instance : Calm ShardQueryResponse.decoder := by
  have hvec := calm_vec (inferInstance : Calm ShardQueryResponse.leaseDecoder) (by decide : 24 ≤ 72)
  unfold ShardQueryResponse.decoder
  infer_instance

theorem noPanic_validateCompletionString (value field : String) (maxBytes : Nat) :
    NoPanic (validateCompletionString value field maxBytes) :=
  (noPanic_failIf _ _).bind fun _ _ => noPanic_failIf _ _

instance {request : CompletionObservationRequest} : Calm (Scan.lift request.validate) := by
  apply calm_lift
  unfold CompletionObservationRequest.validate
  refine (noPanic_validateCompletionString _ _ _).bind fun _ _ => ?_
  refine (noPanic_validateCompletionString _ _ _).bind fun _ _ => ?_
  iterate 10 refine (noPanic_failIf _ _).bind fun _ _ => ?_
  exact noPanic_failIf _ _

instance : Calm CompletionObservationRequest.decoder := by
  unfold CompletionObservationRequest.decoder
  -- the search for an instance is quadratic in the number of reads, so the first half is peeled off
  iterate 16 refine Calm.bind inferInstance fun _ => ?_
  infer_instance

instance : Calm RestoreRequest.layerDecoder := by
  unfold RestoreRequest.layerDecoder
  infer_instance

instance : Calm RestoreRequest.groupDecoder := by
  have hlist := calm_list (inferInstance : Calm RestoreRequest.layerDecoder) (by decide : 24 ≤ 72) 4
  unfold RestoreRequest.groupDecoder
  infer_instance

instance : Calm RestoreRequest.targetDecoder := by
  unfold RestoreRequest.targetDecoder
  infer_instance

instance : Calm RestoreRequest.targetsDecoder := by
  have hlist := calm_list (inferInstance : Calm RestoreRequest.targetDecoder) (by decide : 8 ≤ 72) 4
  unfold RestoreRequest.targetsDecoder
  infer_instance

instance : Calm RestoreRequest.loadDecoder := by
  have hlist := calm_list (inferInstance : Calm RestoreRequest.targetsDecoder)
    (by decide : 24 ≤ 72) 4
  unfold RestoreRequest.loadDecoder
  infer_instance

instance : Calm RestoreRequest.decoder := by
  have hgroups := calm_list (inferInstance : Calm RestoreRequest.groupDecoder)
    (by decide : 24 ≤ 72) 4
  have hloads := calm_list (inferInstance : Calm RestoreRequest.loadDecoder) (by decide : 48 ≤ 72) 8
  unfold RestoreRequest.decoder
  infer_instance

instance : Calm PublishRequest.blockDecoder := by
  unfold PublishRequest.blockDecoder
  infer_instance

instance : Calm PublishRequest.layerDecoder := by
  have hids : ∀ count : UInt32, Calm (Scan.lift (withCapacity 4 count.toNat) : Decode Unit) :=
    fun count => calm_lift (noPanic_withCapacity (capacity_fits (by decide) count))
  have hvec := calm_vec (inferInstance : Calm PublishRequest.blockDecoder) (by decide : 24 ≤ 72)
  unfold PublishRequest.layerDecoder
  infer_instance

instance {raw : Bytes} : Calm (Scan.lift (PublishRequest.generationOf raw)) := by
  apply calm_lift
  unfold PublishRequest.generationOf
  split_ifs
  · exact noPanic_ok _
  · exact noPanic_fail _

theorem noPanic_validatePublishLayers (layers : List PublishLayer) :
    NoPanic (validatePublishLayers layers) := by
  unfold validatePublishLayers
  induction layers with
  | nil => exact noPanic_ok _
  | cons layer layers ih => exact (noPanic_failIf _ _).bind fun _ _ => ih

instance : Calm PublishRequest.decoder := by
  have hlayers := calm_list (inferInstance : Calm PublishRequest.layerDecoder) (by decide : 72 ≤ 72) 8
  have hvalidate : ∀ layers, Calm (Scan.lift (validatePublishLayers layers)) :=
    fun layers => calm_lift (noPanic_validatePublishLayers layers)
  unfold PublishRequest.decoder
  infer_instance

theorem noPanic_validateDemand (demand : RecoveryDemand) (group : UInt32) (blocks : Nat) :
    NoPanic (validateDemand demand group blocks) := by
  have hvalidate := demand.noPanic_validate group blocks
  unfold validateDemand
  cases hresult : demand.validate group blocks with
  | ok u => exact noPanic_ok _
  | error failure =>
    cases failure with
    | panic => exact absurd hresult hvalidate
    | error error => exact noPanic_fail _

instance : Calm QueryBundleRequest.groupDecoder := by
  unfold QueryBundleRequest.groupDecoder
  infer_instance

instance {groupId hashCount : UInt32} : Calm (QueryBundleRequest.demandDecoder groupId hashCount) := by
  have hlist := calm_list (inferInstance : Calm QueryBundleRequest.groupDecoder)
    (by decide : 24 ≤ 72) 20
  have hvalidate : ∀ demand : RecoveryDemand,
      Calm (Scan.lift (validateDemand demand groupId hashCount.toNat)) :=
    fun demand => calm_lift (noPanic_validateDemand demand groupId hashCount.toNat)
  unfold QueryBundleRequest.demandDecoder
  infer_instance

instance {flags : UInt16} {groupId hashCount : UInt32} :
    Calm (QueryBundleRequest.optionalDemandDecoder flags groupId hashCount) := by
  unfold QueryBundleRequest.optionalDemandDecoder
  infer_instance

instance : Calm QueryBundleRequest.decoder := by
  have hhashes := calm_list (inferInstance : Calm sized) (by decide : 24 ≤ 72) 4
  unfold QueryBundleRequest.decoder
  infer_instance

instance : Calm QueryCommand.ticketDecoder := by
  unfold QueryCommand.ticketDecoder
  infer_instance

instance {b : Slice} : Calm (QueryCommand.decoder b) := by
  have hquery : Calm (Scan.lift (QueryBundleRequest.decode b)) :=
    calm_lift ((inferInstance : Calm QueryBundleRequest.decoder).run' _)
  unfold QueryCommand.decoder
  infer_instance

/-! ### The formats together -/

section Claims

variable {α : Type}

def RoundTrips (encode : α → Protocol Bytes) (decode : Slice → Protocol α) : Prop :=
  ∀ v b, encode v = .ok b → ∃ hfits : b.length ≤ isizeMax, decode ⟨b, hfits⟩ = .ok v

def Canonical (encode : α → Protocol Bytes) (decode : Slice → Protocol α) : Prop :=
  ∀ b v, decode b = .ok v → encode v = .ok b.bytes

def NeverPanics (decode : Slice → Protocol α) : Prop :=
  ∀ b, NoPanic (decode b)

/-- What is encoded is read back; what is accepted is the encoding of its value, to the last byte; no
decoder panics, and what a decoder reads lies between its place and the end of the slice. -/
theorem cache_codecs :
    (RoundTrips QueryCommand.encode QueryCommand.decode ∧
      RoundTrips CancelQueryRequest.encode CancelQueryRequest.decode ∧
      RoundTrips PublishRequest.encode PublishRequest.decode ∧
      RoundTrips CompletionObservationRequest.encode CompletionObservationRequest.decode ∧
      RoundTrips QueryBundleRequest.encode QueryBundleRequest.decode ∧
      RoundTrips ShardQueryResponse.encode ShardQueryResponse.decode) ∧
    (Canonical QueryCommand.encode QueryCommand.decode ∧
      Canonical CancelQueryRequest.encode CancelQueryRequest.decode ∧
      Canonical PublishRequest.encode PublishRequest.decode ∧
      Canonical CompletionObservationRequest.encode CompletionObservationRequest.decode ∧
      Canonical QueryBundleRequest.encode QueryBundleRequest.decode ∧
      Canonical ShardQueryResponse.encode ShardQueryResponse.decode ∧
      Canonical RestoreRequest.encode RestoreRequest.decode ∧
      Canonical ReleaseRequest.encode ReleaseRequest.decode ∧
      Canonical QueryBundleResponse.encode QueryBundleResponse.decode) ∧
    (NeverPanics QueryCommand.decode ∧ NeverPanics CancelQueryRequest.decode ∧
      NeverPanics PublishRequest.decode ∧ NeverPanics CompletionObservationRequest.decode ∧
      NeverPanics QueryBundleRequest.decode ∧ NeverPanics ShardQueryResponse.decode ∧
      NeverPanics RestoreRequest.decode ∧ NeverPanics ReleaseRequest.decode ∧
      NeverPanics QueryBundleResponse.decode) ∧
    (∀ (c : Cursor) (len : Nat) (taken : Bytes) (c' : Cursor),
      (Decoder.bytes len).run c = .ok (taken, c') →
        c.offset + len ≤ c.slice.bytes.length ∧ c'.offset = c.offset + len ∧
          taken = (c.slice.bytes.drop c.offset).take len) := by
  refine ⟨⟨?_, ?_, ?_, ?_, ?_, ?_⟩, ⟨?_, ?_, ?_, ?_, ?_, ?_, ?_, ?_, ?_⟩,
    ⟨?_, ?_, ?_, ?_, ?_, ?_, ?_, ?_, ?_⟩, ?_⟩
  · exact fun v b => QueryCommand.encodes.roundTrip QueryCommand.decodes fun _ h => h
  · exact fun v b => CancelQueryRequest.encodes.roundTrip CancelQueryRequest.decodes fun _ h => h
  · exact fun v b => PublishRequest.encodes.roundTrip PublishRequest.decodes fun _ h => h
  · exact fun v b => CompletionObservationRequest.encodes.roundTrip
      CompletionObservationRequest.decodes fun _ h => h
  · exact fun v b => QueryBundleRequest.encodes.roundTrip QueryBundleRequest.decodes fun _ h => h
  · exact fun v b => ShardQueryResponse.encodes.roundTrip ShardQueryResponse.decodes fun _ h => h
  · exact fun b v => QueryCommand.decodes.canonical QueryCommand.encodes fun _ h => h
  · exact fun b v => CancelQueryRequest.decodes.canonical CancelQueryRequest.encodes fun _ h => h
  · exact fun b v => PublishRequest.decodes.canonical PublishRequest.encodes fun _ h => h
  · exact fun b v => CompletionObservationRequest.decodes.canonical
      CompletionObservationRequest.encodes fun _ h => h
  · exact fun b v => QueryBundleRequest.decodes.canonical QueryBundleRequest.encodes fun _ h => h
  · exact fun b v => ShardQueryResponse.decodes.canonical ShardQueryResponse.encodes fun _ h => h
  · exact fun b v => RestoreRequest.decodes.canonical RestoreRequest.encodes fun _ h => h.1
  · exact fun b v => ReleaseRequest.decodes.canonical ReleaseRequest.encodes fun _ h => h.1
  · exact fun b v => QueryBundleResponse.decodes.canonical QueryBundleResponse.encodes fun _ h => h.1
  · exact fun b => (inferInstance : Calm (QueryCommand.decoder b)).run' _
  · exact fun b => (inferInstance : Calm CancelQueryRequest.decoder).run' _
  · exact fun b => (inferInstance : Calm PublishRequest.decoder).run' _
  · exact fun b => (inferInstance : Calm CompletionObservationRequest.decoder).run' _
  · exact fun b => (inferInstance : Calm QueryBundleRequest.decoder).run' _
  · exact fun b => (inferInstance : Calm ShardQueryResponse.decoder).run' _
  · exact fun b => (inferInstance : Calm RestoreRequest.decoder).run' _
  · exact fun b => (inferInstance : Calm ReleaseRequest.decoder).run' _
  · exact fun b => (inferInstance : Calm QueryBundleResponse.decoder).run' _
  · intro c len taken c' hrun
    obtain ⟨rfl, htakes⟩ := run_bytes.mp hrun
    have hle := c'.offset_le
    rw [htakes.slice_eq, htakes.offset_eq] at hle
    refine ⟨hle, htakes.offset_eq, ?_⟩
    rw [← Cursor.rest, htakes.rest_eq, List.take_left]

end Claims


namespace RestoreRequest

theorem Fits.valid_iff {request : RestoreRequest} (hfits : request.Fits) :
    request.Valid ↔ ∀ load ∈ request.loads, load.lease ≠ [] ∧
      ∀ targets ∈ load.blockIdsByGroup, some 0xffffffff ∉ targets := by
  refine ⟨fun hvalid load hload => ?_, fun hloads => ⟨hfits, fun load hload => ?_⟩⟩
  · obtain ⟨-, hlease, htarget⟩ := hvalid.2 load hload
    refine ⟨fun hempty => hlease (List.length_eq_zero_iff.mpr hempty), ?_⟩
    exact fun targets htargets hmem => htarget targets htargets _ hmem rfl
  · obtain ⟨hlease, htarget⟩ := hloads load hload
    refine ⟨hfits.loads load hload, fun hempty => hlease (List.length_eq_zero_iff.mp hempty), ?_⟩
    rintro targets htargets _ hmem rfl
    exact htarget targets htargets hmem

/-- What the encoder accepts is read back exactly if every lease has a byte and no block has the
number that marks a missing target. -/
theorem restore_round_trip {request : RestoreRequest} {b : Bytes} (hok : request.encode = .ok b) :
    (∃ hfits : b.length ≤ isizeMax, decode ⟨b, hfits⟩ = .ok request) ↔
      ∀ load ∈ request.loads, load.lease ≠ [] ∧
        ∀ targets ∈ load.blockIdsByGroup, some 0xffffffff ∉ targets := by
  obtain ⟨hfits, hsize, rfl⟩ := (encodes request b).mp hok
  rw [← hfits.valid_iff]
  constructor
  · rintro ⟨_, hdecode⟩
    exact ((decodes _ _).mp hdecode).1
  · exact fun hvalid => ⟨hsize, (decodes _ _).mpr ⟨hvalid, rfl⟩⟩

def loading (lease : Bytes) (target : Option UInt32) : RestoreRequest :=
  ⟨"", 0, 0, [], [⟨lease, [[target]]⟩]⟩

theorem restore_round_trip_target :
    ∃ b, (loading [7] (some 3)).encode = .ok b ∧
      ∃ hfits : b.length ≤ isizeMax, decode ⟨b, hfits⟩ = .ok (loading [7] (some 3)) :=
  have hok : (loading [7] (some 3)).encode = .ok (loading [7] (some 3)).wire := by decide
  ⟨_, hok, (restore_round_trip hok).mpr (by decide)⟩

/-- The block `u32::MAX` is read back as no block, and a request with an empty lease is not read back. -/
theorem restore_target_lost :
    (∃ b, (loading [7] (some 0xffffffff)).encode = .ok b ∧
      ∃ hfits : b.length ≤ isizeMax, decode ⟨b, hfits⟩ = .ok (loading [7] none)) ∧
    ∃ b, (loading [] none).encode = .ok b ∧
      ∀ hfits : b.length ≤ isizeMax, decode ⟨b, hfits⟩ ≠ .ok (loading [] none) := by
  have hmarked : (loading [7] (some 0xffffffff)).encode = .ok (loading [7] none).wire := by decide
  have hnone : (loading [7] none).encode = .ok (loading [7] none).wire := by decide
  have hempty : (loading [] none).encode = .ok (loading [] none).wire := by decide
  obtain ⟨hfits, hsize, -⟩ := (encodes _ _).mp hnone
  refine ⟨⟨_, hmarked, hsize, ?_⟩, _, hempty, fun _ hdecode => ?_⟩
  · exact (decodes _ _).mpr ⟨hfits.valid_iff.mpr (by decide), rfl⟩
  · have hvalid := ((decodes _ _).mp hdecode).1
    exact (hvalid.2 _ (List.mem_singleton_self _)).2.1 rfl

end RestoreRequest

end OrbitKV
