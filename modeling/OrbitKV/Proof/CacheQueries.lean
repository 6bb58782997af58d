import OrbitKV.Proof.CacheRequests

/-! # Queries, and the formats together -/

namespace OrbitKV

open Decoder Scan List

/-! ### Flags -/

theorem and_low_bits {flags : UInt16} (hflags : flags &&& ~~~31 = 0) : flags &&& 31 = flags := by
  have hbits : flags.toBitVec &&& ~~~31#16 = 0#16 := congrArg UInt16.toBitVec hflags
  apply UInt16.toBitVec_inj.mp
  apply BitVec.eq_of_getLsbD_eq
  intro i hi
  have hbit := congrArg (fun bits : BitVec 16 => bits.getLsbD i) hbits
  simp only [BitVec.getLsbD_and, BitVec.getLsbD_not, BitVec.getLsbD_zero, hi, decide_true,
    Bool.true_and, UInt16.toBitVec_and] at hbit ⊢
  change (flags.toBitVec.getLsbD i && (31#16).getLsbD i) = _
  cases hmask : (31#16).getLsbD i with
  | true => simp
  | false => simpa [hmask] using hbit.symm

theorem flags_of_bits {flags : UInt16} (hflags : flags &&& ~~~31 = 0) :
    (decide (flags &&& 1 ≠ 0)).toUInt16 ||| (decide (flags &&& 2 ≠ 0)).toUInt16 <<< 1 |||
      (decide (flags &&& 4 ≠ 0)).toUInt16 <<< 2 ||| (decide (flags &&& 8 ≠ 0)).toUInt16 <<< 3 |||
      (decide (flags &&& 16 ≠ 0)).toUInt16 <<< 4 = flags := by
  have hlow : flags.toNat < 32 := by
    rw [← and_low_bits hflags, UInt16.toNat_and]
    exact Nat.lt_succ_of_le Nat.and_le_right
  obtain ⟨n, hn, rfl⟩ : ∃ n < 32, flags = UInt16.ofNat n := ⟨_, hlow, UInt16.ofNat_toNat.symm⟩
  interval_cases n <;> decide

namespace QueryBundleRequest

/-! ### Queries -/

theorem bits_of_flags (request : QueryBundleRequest) :
    request.flags &&& ~~~31 = 0 ∧ decide (request.flags &&& 1 ≠ 0) = request.waitForFullPrefix ∧
      decide (request.flags &&& 2 ≠ 0) = request.warmup ∧
      decide (request.flags &&& 4 ≠ 0) = request.discover ∧
      decide (request.flags &&& 8 ≠ 0) = request.materialize ∧
      decide (request.flags &&& 16 ≠ 0) = request.prepare := by
  unfold flags
  cases request.waitForFullPrefix <;> cases request.warmup <;> cases request.discover <;>
    cases request.materialize <;> cases request.prepare <;> decide

def groupWire (entry : UInt32 × TokenRange) : Bytes :=
  leBytes 4 entry.1.toNat ++ (leBytes 8 entry.2.start.toNat ++ leBytes 8 entry.2.stop.toNat)

def demandWire (demand : RecoveryDemand) : Bytes :=
  [leBytes 8 demand.pageTokens.toNat, leBytes 8 demand.span.start.toNat,
    leBytes 8 demand.span.stop.toNat, leBytes 4 demand.groups.length,
    demand.groups.flatMap groupWire].flatten

def wire (request : QueryBundleRequest) : Bytes :=
  [leBytes 4 queryRequestMagic.toNat, leBytes 2 cacheProtocolVersion.toNat,
    leBytes 2 request.flags.toNat, request.ticket.wire, leBytes 4 request.groupId.toNat,
    leBytes 4 (asBytes request.instanceId).length, leBytes 4 (asBytes request.requestId).length,
    leBytes 4 request.blockHashes.length, asBytes request.instanceId, asBytes request.requestId,
    request.blockHashes.flatMap sizedWire, request.demand.elim [] demandWire].flatten

def DemandValid (groupId : UInt32) (count : Nat) (demand : RecoveryDemand) : Prop :=
  demand.groups.length < 2 ^ 32 ∧ validateDemand demand groupId count = .ok ()

structure Valid (request : QueryBundleRequest) : Prop where
  ticket : request.ticket.Valid
  instanceId : (asBytes request.instanceId).length < 2 ^ 32
  requestId : (asBytes request.requestId).length < 2 ^ 32
  requestId_ne : request.requestId.utf8ByteSize ≠ 0
  count : request.blockHashes.length < 2 ^ 32
  hashes : ∀ hash ∈ request.blockHashes, hash.length < 2 ^ 32
  materialize : request.materialize = request.demand.isSome
  demand : ∀ demand ∈ request.demand, DemandValid request.groupId request.blockHashes.length demand

theorem reads_groupDecoder : Reads groupDecoder (fun _ => True) groupWire := by
  rintro c ⟨group, start, stop⟩ c'
  simp [-StateT.run_bind, -StateT.run_pure, -bind_pure_comp, groupDecoder, groupWire]

theorem reads_demandDecoder (groupId hashCount : UInt32) :
    Reads (demandDecoder groupId hashCount) (DemandValid groupId hashCount.toNat) demandWire := by
  rintro c ⟨page, ⟨start, stop⟩, groups⟩ c'
  simp [-StateT.run_bind, -StateT.run_pure, -bind_pure_comp, demandDecoder,
    run_list reads_groupDecoder (by decide : 0 < 20) (fun _ _ => by simp [groupWire])
      (by decide : 24 ≤ 72), demandWire, and_assoc]
  constructor
  · rintro ⟨hshort, c₁, hpage, c₂, hstart, c₃, hstop, c₄, hcount, hgroups, ⟨⟩, hvalid⟩
    exact ⟨⟨hshort, hvalid⟩, c₁, hpage, c₂, hstart, c₃, hstop, c₄, hcount, hgroups⟩
  · rintro ⟨⟨hshort, hvalid⟩, c₁, hpage, c₂, hstart, c₃, hstop, c₄, hcount, hgroups⟩
    exact ⟨hshort, c₁, hpage, c₂, hstart, c₃, hstop, c₄, hcount, hgroups, (), hvalid⟩

theorem reads_hash : Reads sized (fun hash => hash.length < 2 ^ 32) sizedWire := reads_sized

theorem decodes : Decodes decode Valid wire := by
  apply Scan.ReadsAll.decodes
  intro c request c'
  have hdemand : ∀ (flags : UInt16) (groupId hashCount : UInt32) (c : Cursor)
      (o : Option RecoveryDemand) (c' : Cursor),
      (optionalDemandDecoder flags groupId hashCount).run c = .ok (o, c') ↔
        ((o.isSome ↔ flags &&& 8 ≠ 0) ∧
          ∀ demand ∈ o, DemandValid groupId hashCount.toNat demand) ∧
            c.Takes (o.elim [] demandWire) c' := fun flags groupId hashCount =>
    (reads_demandDecoder groupId hashCount).optional _
  simp only [decoder, run_bind_eq_ok, run_expectMagic, run_expectVersion, run_u16, run_u32,
    run_usizeU32, run_string, QueryTicket.reads_decodeFrom _ _ _, run_rejectIf_eq_ok, hdemand,
    run_list reads_hash (by decide : 0 < 4) (fun _ _ => by simp) (by decide : 24 ≤ 72),
    run_finish, run_pure_eq_ok, wire, flatten_cons, flatten_nil, append_nil,
    Cursor.takes_append, eq_toNat_iff, leBytes_uint32_ofNat, exists_const, existsAndEq, true_and,
    and_true, and_assoc, not_not]
  constructor
  · rintro ⟨c₁, hmagic, c₂, hversion, flags, c₃, hflags, hbits, ticket, c₄, hticket, hticketTaken,
      groupId, c₅, hgroupId, c₆, c₇, c₈, instanceId, c₉, requestId, c₁₀, hashes, c₁₁, hinstanceLen,
      hrequestLen, hhashCount, hinstance, hinstanceId, hrequest, hrequestId, hne, hcount, hhashes,
      hlist,
      demand, hsome, hvalid, htakes, hend, rfl⟩
    rw [UInt32.toNat_ofNat_of_lt' hcount] at hvalid
    rw [← flags_of_bits hbits] at hflags
    refine ⟨⟨hticket, hinstance, hrequest, hne, hcount, hhashes, ?_, hvalid⟩, ⟨c₁, hmagic, c₂,
      hversion, c₃, hflags, c₄, hticketTaken, c₅, hgroupId, c₆, hinstanceLen, c₇, hrequestLen, c₈,
      hhashCount, c₉, hinstanceId, c₁₀, hrequestId, c₁₁, hlist, htakes⟩, hend⟩
    rw [Bool.eq_iff_iff, decide_eq_true_iff]
    exact hsome.symm
  · rintro ⟨hvalid, ⟨c₁, hmagic, c₂, hversion, c₃, hflags, c₄, hticketTaken, c₅, hgroupId, c₆,
      hinstanceLen, c₇, hrequestLen, c₈, hhashCount, c₉, hinstanceId, c₁₀, hrequestId, c₁₁, hlist,
      htakes⟩, hend⟩
    obtain ⟨hbits, hwait, hwarmup, hdiscover, hmaterialize, hprepare⟩ := request.bits_of_flags
    refine ⟨c₁, hmagic, c₂, hversion, _, c₃, hflags, hbits, _, c₄, hvalid.ticket, hticketTaken, _, c₅,
      hgroupId, c₆, c₇, c₈, _, c₉, _, c₁₀, _, c₁₁, hinstanceLen, hrequestLen, hhashCount,
      hvalid.instanceId, hinstanceId, hvalid.requestId, hrequestId, hvalid.requestId_ne, hvalid.count,
      hvalid.hashes, hlist, _, ?_, ?_, htakes, hend, ?_⟩
    · rw [← hvalid.materialize, ← hmaterialize, decide_eq_true_iff]
    · rw [UInt32.toNat_ofNat_of_lt' hvalid.count]
      exact hvalid.demand
    · rw [hwait, hwarmup, hdiscover, hmaterialize, hprepare]

theorem grows_demandSize (demand : Option RecoveryDemand) :
    Grows (demandSize demand) True (demand.elim [] demandWire).length := by
  cases demand with
  | none =>
    intro size size' hsize
    simp only [demandSize, pure_eq_ok, Option.elim, length_nil, true_and]
    omega
  | some demand =>
    have hgroups : (demand.groups.flatMap groupWire).length = demand.groups.length * 20 := by
      simp [length_flatMap, groupWire]
    refine ((grows_addEncodedSize 1 28).bind (grows_addEncodedSize _ 20)).congr (by simp) ?_
    simp only [Option.elim, demandWire, length_flatten, map_cons, map_nil,
      sum_cons, sum_nil, length_leBytes, hgroups]
    omega

theorem length_flatMap_sizedWire (hashes : List Bytes) :
    (hashes.flatMap sizedWire).length =
      hashes.length * 4 + (hashes.map fun hash => hash.length * 1).sum := by
  induction hashes with
  | nil => rfl
  | cons hash hashes ih =>
    simp only [flatMap_cons, length_append, ih, length_cons, map_cons, sum_cons, length_sizedWire]
    omega

theorem length_wire (request : QueryBundleRequest) :
    request.wire.length = requestHeaderBytes + ((asBytes request.instanceId).length * 1 +
      ((asBytes request.requestId).length * 1 + (request.blockHashes.length * 4 +
        ((request.blockHashes.map fun hash => hash.length * 1).sum +
          (request.demand.elim [] demandWire).length)))) := by
  simp only [wire, length_flatten, map_cons, map_nil, sum_cons, sum_nil,
    length_leBytes, QueryTicket.wire, length_append, length_flatMap_sizedWire,
    requestHeaderBytes]
  omega

theorem encodedSize_eq_ok {request : QueryBundleRequest} {size : Nat} :
    request.encodedSize = .ok size ↔
      size = request.wire.length ∧ request.wire.length ≤ isizeMax := by
  have hhashes : ∀ hash ∈ request.blockHashes, Grows (fun size => addEncodedSize size hash.length 1)
      True (hash.length * 1) := fun hash _ => grows_addEncodedSize _ 1
  have hgrows := (grows_addEncodedSize (asBytes request.instanceId).length 1).bind
    ((grows_addEncodedSize (asBytes request.requestId).length 1).bind
      ((grows_addEncodedSize request.blockHashes.length 4).bind
        ((Grows.foldlM _ hhashes).bind (grows_demandSize request.demand))))
  have hok := hgrows.eq_ok request.length_wire (by unfold requestHeaderBytes isizeMax; omega) size
  simp only [implies_true, and_self, true_and] at hok
  exact hok

theorem appends_encodeDemand (demand : RecoveryDemand) :
    Appends (encodeDemand demand) (demand.groups.length < 2 ^ 32) (demandWire demand) := by
  have hpush : ∀ b : Bytes, demand.groups.foldl (fun bytes entry =>
      pushU64 (pushU64 (pushU32 bytes entry.1) entry.2.start) entry.2.stop) b =
        b ++ demand.groups.flatMap groupWire := by
    apply foldl_append_flatMap
    intro b entry
    simp [pushU64, pushU32, groupWire]
  intro b b'
  simp only [encodeDemand, bind_eq_ok_iff, checkedU32_eq_ok, hpush, pure_eq_ok]
  constructor
  · rintro ⟨_, ⟨hcount, rfl⟩, rfl⟩
    refine ⟨hcount, ?_⟩
    simp [demandWire, pushU32, pushU64]
  · rintro ⟨hcount, rfl⟩
    refine ⟨_, ⟨hcount, rfl⟩, ?_⟩
    simp [demandWire, pushU32, pushU64]

theorem validateOptionalDemand_eq_ok {demand : Option RecoveryDemand} {group : UInt32} {blocks : Nat}
    {u : Unit} :
    validateOptionalDemand demand group blocks = .ok u ↔
      ∀ d ∈ demand, validateDemand d group blocks = .ok () := by
  cases demand with
  | none => simp [validateOptionalDemand]
  | some demand => simp [validateOptionalDemand]

theorem appends_encodeOptionalDemand (demand : Option RecoveryDemand) :
    Appends (encodeOptionalDemand demand) (∀ d ∈ demand, d.groups.length < 2 ^ 32)
      (demand.elim [] demandWire) := by
  cases demand with
  | none =>
    intro b b'
    simp [encodeOptionalDemand, pure, Except.pure, eq_comm]
  | some demand =>
    intro b b'
    simpa [encodeOptionalDemand] using appends_encodeDemand demand b b'

theorem encodes : Encodes encode Valid wire := by
  intro request b
  have hhashes : Appends (fun bytes => request.blockHashes.foldlM (fun bytes hash =>
      pushBytes bytes hash "block_hash") bytes) (∀ hash ∈ request.blockHashes, hash.length < 2 ^ 32)
        (request.blockHashes.flatMap sizedWire) :=
    Appends.foldlM _ fun hash _ => appends_pushBytes hash "block_hash"
  have hticket := request.ticket.appends_encodeInto
  have hdemand := appends_encodeOptionalDemand request.demand
  simp only [encode, bind_eq_ok_iff, failIf_eq_ok, validateOptionalDemand_eq_ok, encodedSize_eq_ok,
    withCapacity_eq_ok, hticket _ _, checkedU32_eq_ok, hhashes _ _, hdemand _ _, ne_eq, not_not,
    Nat.one_mul]
  constructor
  · rintro ⟨-, hne, -, hmaterialize, -, hvalidate, _, ⟨rfl, hsize⟩, -, -, _, ⟨hvalid, rfl⟩, _,
      ⟨hinstance, rfl⟩, _, ⟨hrequest, rfl⟩, _, ⟨hcount, rfl⟩, _, ⟨hfits, rfl⟩, hgroups, rfl⟩
    refine ⟨⟨hvalid, hinstance, hrequest, hne, hcount, hfits, hmaterialize, ?_⟩, hsize, ?_⟩
    · exact fun demand h => ⟨hgroups demand h, hvalidate demand h⟩
    · simp only [wire, pushU32, pushU16, leBytes_uint32_ofNat, flatten_cons,
        flatten_nil, nil_append, append_nil, append_assoc]
  · rintro ⟨hvalid, hsize, rfl⟩
    refine ⟨(), hvalid.requestId_ne, (), hvalid.materialize, (),
      fun demand h => (hvalid.demand demand h).2, _, ⟨rfl, hsize⟩, (), hsize, _,
      ⟨hvalid.ticket, rfl⟩, _, ⟨hvalid.instanceId, rfl⟩, _, ⟨hvalid.requestId, rfl⟩, _,
      ⟨hvalid.count, rfl⟩, _, ⟨hvalid.hashes, rfl⟩, fun demand h => (hvalid.demand demand h).1, ?_⟩
    simp only [wire, pushU32, pushU16, leBytes_uint32_ofNat, flatten_cons,
      flatten_nil, nil_append, append_nil, append_assoc]

end QueryBundleRequest

/-! ### Commands -/

namespace QueryCommand

def ticketWire (ticket : QueryTicket) (flags : UInt16) : Bytes :=
  [leBytes 4 queryPollMagic.toNat, leBytes 2 cacheProtocolVersion.toNat, leBytes 2 flags.toNat,
    ticket.wire].flatten

def wire : QueryCommand → Bytes
  | .submit request => request.wire
  | .poll ticket => ticketWire ticket 0
  | .claim ticket countLookup => ticketWire ticket ((1 : UInt16) ||| countLookup.toUInt16 <<< 1)

def Valid : QueryCommand → Prop
  | .submit request => request.Valid
  | .poll ticket => ticket.Valid
  | .claim ticket _ => ticket.Valid

def OnTicket : QueryCommand → Prop
  | .submit _ => False
  | .poll _ | .claim _ _ => True

theorem encodes_ticket (ticket : QueryTicket) (flags : UInt16) (b : Bytes) :
    encodeTicket ticket flags = .ok b ↔
      ticket.Valid ∧ (ticketWire ticket flags).length ≤ isizeMax ∧ b = ticketWire ticket flags := by
  have hlength : (ticketWire ticket flags).length = 24 := by simp [ticketWire, QueryTicket.wire]
  simp only [encodeTicket, bind_eq_ok_iff, withCapacity_eq_ok, pushU32, pushU16,
    ticket.appends_encodeInto _ _, hlength]
  simp [ticketWire, isizeMax]

theorem encodes : Encodes encode Valid wire := by
  intro command b
  cases command with
  | submit request => exact QueryBundleRequest.encodes request b
  | poll ticket => exact encodes_ticket ticket 0 b
  | claim ticket countLookup => exact encodes_ticket ticket _ b

theorem flags_cases {flags : UInt16} (hflags : ¬ (flags > 3 ∨ flags = 2)) :
    flags = 0 ∨ flags = 1 ∨ flags = 3 := by
  rw [not_or] at hflags
  have hle : flags.toNat ≤ 3 := UInt16.le_iff_toNat_le.mp (UInt16.not_lt.mp hflags.1)
  obtain ⟨n, hn, rfl⟩ : ∃ n ≤ 3, flags = UInt16.ofNat n := ⟨_, hle, UInt16.ofNat_toNat.symm⟩
  interval_cases n
  · exact .inl rfl
  · exact .inr (.inl rfl)
  · exact absurd rfl hflags.2
  · exact .inr (.inr rfl)

theorem run_ticketDecoder {c c' : Cursor} {command : QueryCommand} :
    ticketDecoder.run c = .ok (command, c') ↔
      ∃ (ticket : QueryTicket) (flags : UInt16), ¬ (flags > 3 ∨ flags = 2) ∧
        command = (if flags &&& 1 ≠ 0 then .claim ticket (flags &&& 2 ≠ 0) else .poll ticket) ∧
        ticket.Valid ∧ c.Takes [leBytes 2 cacheProtocolVersion.toNat, leBytes 2 flags.toNat,
          ticket.wire].flatten c' ∧ c'.rest = [] := by
  simp only [ticketDecoder, run_bind_eq_ok, run_expectVersion, run_u16, run_rejectIf_eq_ok,
    QueryTicket.reads_decodeFrom _ _ _, run_finish, run_pure_eq_ok, flatten_cons,
    flatten_nil, append_nil, Cursor.takes_append, exists_const, existsAndEq, and_assoc,
    true_and, and_true]
  constructor
  · rintro ⟨c₁, hversion, flags, c₂, hflags, hbits, ticket, hvalid, hticket, hend, rfl⟩
    exact ⟨ticket, flags, hbits, rfl, hvalid, ⟨c₁, hversion, c₂, hflags, hticket⟩, hend⟩
  · rintro ⟨ticket, flags, hbits, rfl, hvalid, ⟨c₁, hversion, c₂, hflags, hticket⟩, hend⟩
    exact ⟨c₁, hversion, flags, c₂, hflags, hbits, ticket, hvalid, hticket, hend, rfl⟩

theorem takes_ticket (b : Slice) (command : QueryCommand) :
    (∃ c₁ c', (Cursor.new b).Takes (leBytes 4 queryPollMagic.toNat) c₁ ∧
      ticketDecoder.run c₁ = .ok (command, c')) ↔
      command.OnTicket ∧ command.Valid ∧ command.wire = b.bytes := by
  simp only [run_ticketDecoder]
  constructor
  · rintro ⟨c₁, c', hmagic, ticket, flags, hbits, rfl, hvalid, htakes, hend⟩
    have hall : ticketWire ticket flags = b.bytes := by
      rw [← Cursor.takes_all]
      refine ⟨c', ?_, hend⟩
      rw [ticketWire, flatten_cons, Cursor.takes_append]
      exact ⟨c₁, hmagic, htakes⟩
    rcases flags_cases hbits with rfl | rfl | rfl
    · exact ⟨trivial, hvalid, hall⟩
    · exact ⟨trivial, hvalid, hall⟩
    · exact ⟨trivial, hvalid, hall⟩
  · rintro ⟨hticket, hvalid, hwire⟩
    obtain ⟨ticket, flags, hbits, hcommand, hvalid, hwire⟩ : ∃ ticket flags,
        ¬ (flags > 3 ∨ flags = 2) ∧
        command = (if flags &&& 1 ≠ 0 then .claim ticket (flags &&& 2 ≠ 0) else .poll ticket) ∧
        ticket.Valid ∧ ticketWire ticket flags = b.bytes := by
      cases command with
      | submit => exact hticket.elim
      | poll ticket => exact ⟨ticket, 0, by decide, rfl, hvalid, hwire⟩
      | claim ticket countLookup =>
        cases countLookup with
        | false => exact ⟨ticket, 1, by decide, rfl, hvalid, hwire⟩
        | true => exact ⟨ticket, 3, by decide, rfl, hvalid, hwire⟩
    obtain ⟨c', htakes, hend⟩ := (Cursor.takes_all b).mpr hwire
    rw [ticketWire, flatten_cons, Cursor.takes_append] at htakes
    obtain ⟨c₁, hmagic, hrest⟩ := htakes
    exact ⟨c₁, c', hmagic, ticket, flags, hbits, hcommand, hvalid, hrest, hend⟩

theorem decodes : Decodes decode Valid wire := by
  intro b command
  rw [decode, run'_eq_ok]
  simp only [decoder, run_bind_eq_ok, run_u32]
  constructor
  · rintro ⟨c', magic, c₁, hmagic, hrun⟩
    split_ifs at hrun with hsubmit
    · obtain ⟨request, hrequest, rfl⟩ := run_map_eq_ok.mp hrun
      obtain ⟨hdecode, -⟩ := run_lift_eq_ok.mp hrequest
      exact (QueryBundleRequest.decodes b request).mp hdecode
    · obtain ⟨⟨⟩, _, hreject, hrun⟩ := run_bind_eq_ok.mp hrun
      obtain ⟨hpoll, rfl⟩ := run_rejectIf_eq_ok.mp hreject
      obtain rfl := not_not.mp hpoll
      exact ((takes_ticket b command).mp ⟨_, c', hmagic, hrun⟩).2
  · rintro ⟨hvalid, hwire⟩
    cases command with
    | submit request =>
      obtain ⟨c', htakes, -⟩ := (Cursor.takes_all b).mpr hwire
      rw [wire, QueryBundleRequest.wire, flatten_cons, Cursor.takes_append] at htakes
      obtain ⟨c₁, hmagic, -⟩ := htakes
      refine ⟨c₁, _, c₁, hmagic, ?_⟩
      rw [if_pos rfl, run_map_eq_ok]
      exact ⟨request, run_lift_eq_ok.mpr
        ⟨(QueryBundleRequest.decodes b request).mpr ⟨hvalid, hwire⟩, rfl⟩, rfl⟩
    | poll | claim =>
      obtain ⟨c₁, c', hmagic, hrun⟩ := (takes_ticket b _).mpr ⟨by trivial, hvalid, hwire⟩
      refine ⟨c', _, c₁, hmagic, ?_⟩
      rw [if_neg (by decide), run_bind_eq_ok]
      exact ⟨(), c₁, run_rejectIf_eq_ok.mpr ⟨not_not.mpr rfl, rfl⟩, hrun⟩

end QueryCommand

end OrbitKV
