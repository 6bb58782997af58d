import OrbitKV.Proof.SsdWriters

/-! # Safety of the SSD store -/

namespace OrbitKV

open Std List

open SsdRingBuffer (Reserved)

variable {n : Nat} {L : Type → Type} [LruMap StateKey L]

def SsdStep.reserves : SsdStep n → Bool
  | .executeWrite _ | .reserveGpu .. => true
  | _ => false

namespace SsdSystem

variable {s t : SsdSystem n L} {key : StateKey} {entry : SsdIndexEntry n} {position : Nat}
  {step : SsdStep n}

/-! ### What a step does -/

theorem takeRetired_of_drained {ring : SsdRingBuffer n} (hdrained : ring.retired = []) :
    ring.takeRetired = ([], ring) := by
  unfold SsdRingBuffer.takeRetired
  rw [hdrained, ← hdrained]

def reservedState (s : SsdSystem n L) (ring : SsdRingBuffer n) (pending : ExtTreeSet StateKey)
    (history : L Unit) (jobs : List (WriteJob n)) (key : StateKey) (entry : SsdIndexEntry n) :
    SsdSystem n L :=
  (startEntry { s with inner := ⟨{ ring with retired := [] }, pending, history⟩, jobs := jobs }
    key entry).leave (retireNotices ring.retired)

section Reservation

variable [NeZero n]

theorem executeWrite_cases (hs : s.Consistent) (hnext : s.next (.executeWrite position) = some t) :
    ∃ key block, s.jobs[position]? = some (.task key block) ∧
      (t = { s with jobs := s.jobs.set position (.unreserved key) } ∨
        ∃ entry ring, Reserved s.readers s.inner.ring ring key entry ∧ entry.readers = s.cells ∧
          t = s.reservedState ring s.inner.pendingWrites s.inner.reuseHistory
            (s.jobs.set position (.writing key entry)) key entry) := by
  rw [next] at hnext
  split at hnext
  case h_2 => cases hnext
  case h_1 key block hjob =>
    refine ⟨key, block, hjob, ?_⟩
    rw [SsdInner.executeWrite] at hnext
    cases hreserve : s.inner.ring.reserve s.readers s.cells key (SsdInner.slotMetas block)
        (SsdInner.encodingOf (SsdInner.slotMetas block)) with
    | none =>
      simp only [hreserve, takeRetired_of_drained hs.drained, Option.some.injEq] at hnext
      exact .inl hnext.symm
    | some result =>
      obtain ⟨entry, ring⟩ := result
      obtain ⟨hreserved, hcell⟩ := SsdRingBuffer.reserved_of_reserve hs.wellFormed hreserve
      simp only [hreserve, SsdRingBuffer.takeRetired, Option.some.injEq] at hnext
      exact .inr ⟨entry, ring, hreserved, hcell, hnext.symm⟩

theorem reserveGpu_inner {inner : SsdInner n L} (hwf : inner.ring.WellFormed) (readers : Nat → Nat)
    (cell : Nat) (policy : SsdWritePolicy) (key : StateKey) (slots : List SlotMeta) :
    (∃ history, inner.reserveGpu readers cell policy key slots =
        (none, { inner with reuseHistory := history })) ∨
      key ∉ inner.pendingWrites ∧
        ∃ entry ring history, Reserved readers inner.ring ring key entry ∧ entry.readers = cell ∧
          inner.reserveGpu readers cell policy key slots = (some (entry, ring.retired),
            ⟨{ ring with retired := [] }, inner.pendingWrites.insert key, history⟩) := by
  unfold SsdInner.reserveGpu
  split
  · exact .inl ⟨inner.reuseHistory, rfl⟩
  obtain ⟨skip, history, hskip, hadmitted⟩ := admissionSkip_cases inner key false policy
  rw [hskip]
  cases skip with
  | some reason => exact .inl ⟨history, rfl⟩
  | none =>
    cases hreserve : inner.ring.reserve readers cell key slots (SsdInner.encodingOf slots) with
    | none =>
      simp only [hreserve]
      exact .inl ⟨history, rfl⟩
    | some result =>
      obtain ⟨entry, ring⟩ := result
      obtain ⟨hreserved, hcell⟩ := SsdRingBuffer.reserved_of_reserve hwf hreserve
      simp only [hreserve, SsdRingBuffer.takeRetired]
      exact .inr ⟨hadmitted rfl, entry, ring, history, hreserved, hcell, rfl⟩

theorem reserveGpu_cases (hs : s.Consistent) {slots : List SlotMeta} {available : Bool}
    (hnext : s.next (.reserveGpu key slots available) = some t) :
    (∃ history, t = { s with inner := { s.inner with reuseHistory := history } }) ∨
      key ∉ s.inner.pendingWrites ∧
        ∃ entry ring history, Reserved s.readers s.inner.ring ring key entry ∧
          entry.readers = s.cells ∧
          t = s.reservedState ring (s.inner.pendingWrites.insert key) history
            (s.jobs ++ [.gpu key entry]) key entry := by
  cases available with
  | false => exact .inl ⟨s.inner.reuseHistory, (Option.some.inj hnext).symm⟩
  | true =>
    rcases reserveGpu_inner hs.wellFormed s.readers s.cells s.writePolicy key slots with
      ⟨history, hresult⟩ | ⟨hfresh, entry, ring, history, hreserved, hcell, hresult⟩
    · simp only [next, if_true, hresult, Option.some.injEq] at hnext
      exact .inl ⟨history, hnext.symm⟩
    · simp only [next, if_true, hresult, Option.some.injEq] at hnext
      exact .inr ⟨hfresh, entry, ring, history, hreserved, hcell, hnext.symm⟩

end Reservation

theorem commitWrite_cases [NeZero n] (hs : s.Consistent) {success : Bool}
    (hnext : s.next (.commitWrite position success) = some t) :
    ∃ job, s.jobs[position]? = some job ∧
      ((∃ entry, job.reservation = some entry ∧
          s.inner.ring.entries[job.key]? = some (.writing entry) ∧
          t = ({ s with
            inner := ⟨{ s.inner.ring with
              entries :=
                if success then s.inner.ring.entries.insert job.key (.committed entry)
                else s.inner.ring.entries.erase job.key
              retired := [] }, s.inner.pendingWrites.erase job.key, s.inner.reuseHistory⟩
            jobs := s.jobs.eraseIdx position
            log := s.log ++ [SsdEvent.wrote job.key entry success] }).leave
              (advertiseNotices job.key (if success then some entry.replicaMetadata else none))) ∨
        job.reservation = none ∧ ∃ metadata,
          (metadata.isSome = true → (s.inner.ring.get job.key).isSome = true) ∧
          (∀ m ∈ metadata, m.medium = .ssd) ∧
          t = ({ s with
            inner := ⟨s.inner.ring, s.inner.pendingWrites.erase job.key, s.inner.reuseHistory⟩
            jobs := s.jobs.eraseIdx position }).leave (advertiseNotices job.key metadata)) := by
  rw [next] at hnext
  split at hnext
  case h_2 => cases hnext
  case h_1 job hjob =>
    refine ⟨job, hjob, ?_⟩
    split at hnext
    case isFalse => cases hnext
    cases hentry : job.reservation with
    | some entry =>
      have hwriting := (hs.writing job.key entry).mpr ⟨job, mem_of_getElem? hjob, rfl, hentry⟩
      have hvalid : s.inner.ring.isOffsetValid entry = true := hs.wellFormed.isOffsetValid hwriting
      refine .inl ⟨entry, rfl, hwriting, ?_⟩
      simp only [SsdInner.commitWrite, hs.wellFormed.commit_of_writing hwriting, hentry,
        SsdRingBuffer.takeRetired, hs.drained, Option.some.injEq] at hnext
      rw [← hnext]
      cases success with
      | false => rfl
      | true =>
        have hget : SsdRingBuffer.get { s.inner.ring with
            entries := s.inner.ring.entries.insert job.key (.committed entry)
            retired := [] } job.key = some entry := by
          simp only [SsdRingBuffer.get, ExtTreeMap.getElem?_insert_self]
          exact if_pos hvalid
        simp only [if_true, hget]
        rfl
    | none =>
      have hnot : ∀ entry, s.inner.ring.entries[job.key]? ≠ some (.writing entry) := by
        intro entry hwriting
        rw [hs.entry_of_writing (mem_of_getElem? hjob) hwriting] at hentry
        cases hentry
      have hring := SsdRingBuffer.commit_of_not_writing hnot success
      refine .inr ⟨rfl, if (s.inner.ring.commit job.key success).1 then
        (s.inner.ring.get job.key).map SsdIndexEntry.replicaMetadata else none, ?_, ?_, ?_⟩
      · intro hsome
        split at hsome
        · simpa using hsome
        · cases hsome
      · intro m hm
        split at hm
        · obtain ⟨found, -, rfl⟩ := Option.map_eq_some_iff.mp hm
          rfl
        · cases hm
      · simp only [SsdInner.commitWrite, hring, takeRetired_of_drained hs.drained, hentry,
          Option.some.injEq] at hnext
        rw [← hnext]
        simp [retireNotices]

/-! ### Every step keeps the books -/

theorem Consistent.next [NeZero n] (hs : s.Consistent)
    (hnext : s.next step = some t) : t.Consistent := by
  cases step with
  | ingestBatch blocks reused permit =>
    obtain ⟨sent, history, pending, hingest, hnodup, hfresh, hpending⟩ :=
      ingestBatch_cases s.inner s.writePolicy blocks reused permit
    simp only [SsdSystem.next, hingest, Option.some.injEq] at hnext
    rw [← hnext]
    exact hs.ingest hnodup hfresh hpending
  | dequeue job live =>
    rw [SsdSystem.next] at hnext
    split at hnext
    case h_2 => cases hnext
    case h_1 key block hjob =>
      cases live with
      | true =>
        rw [← Option.some.inj hnext]
        exact hs.replaceJob hjob rfl rfl rfl
      | false =>
        rw [← Option.some.inj hnext]
        exact hs.removeJob hjob rfl
  | executeWrite job =>
    obtain ⟨key, block, hjob, rfl | ⟨entry, ring, hreserved, hcell, rfl⟩⟩ :=
      executeWrite_cases hs hnext
    · exact hs.replaceJob hjob rfl rfl rfl
    · apply Consistent.leave
      have hmap : (s.jobs.set job (.writing key entry)).map WriteJob.key =
          s.jobs.map WriteJob.key := map_set_of_eq hjob rfl
      refine hs.start hreserved hcell (hmap ▸ hs.distinct) (hmap ▸ hs.pending)
        ⟨.writing key entry, (mem_set_iff hs.distinct hjob).mpr (.inl rfl), rfl, rfl⟩ ?_
      intro other hne
      rw [mem_set_iff hs.distinct hjob, or_iff_right]
      · exact and_iff_left hne
      · rintro rfl
        exact hne rfl
  | commitWrite job success =>
    obtain ⟨write, hjob, ⟨entry, hentry, -, rfl⟩ | ⟨hentry, metadata, -, -, rfl⟩⟩ :=
      commitWrite_cases hs hnext
    · apply Consistent.leave
      apply hs.finish hjob hentry success
      · intro other hne
        cases success
        · simp [ExtTreeMap.getElem?_erase, hne.symm]
        · exact getElem?_insert_of_ne hne.symm
      · cases success <;> simp
    · exact (hs.removeJob hjob hentry).leave _
  | reserveGpu key slots available =>
    obtain ⟨history, rfl⟩ | ⟨hfresh, entry, ring, history, hreserved, hcell, rfl⟩ :=
      reserveGpu_cases hs hnext
    · exact { hs with }
    · apply Consistent.leave
      have hnew : key ∉ s.jobs.map WriteJob.key := fun hmem => hfresh ((hs.pending key).mpr hmem)
      refine hs.start hreserved hcell ?_ (fun other => ?_)
        ⟨.gpu key entry, mem_append_right _ mem_cons_self, rfl, rfl⟩ (fun job hne => ?_)
      · rw [map_append, nodup_append]
        refine ⟨hs.distinct, nodup_singleton _, fun first hfirst last hlast heq => hnew ?_⟩
        rw [map_singleton, mem_singleton] at hlast
        rw [heq, hlast] at hfirst
        exact hfirst
      · rw [ExtTreeSet.mem_insert, Std.compare_eq_iff_eq, hs.pending, map_append,
          mem_append, map_singleton, mem_singleton, or_comm, eq_comm]
        rfl
      · rw [mem_append, mem_singleton, or_iff_left]
        rintro rfl
        exact hne rfl
  | pin candidate => exact Option.some.inj hnext ▸ hs.pin candidate
  | pinResidencies records validated =>
    exact Option.some.inj hnext ▸ hs.pinResidencies records validated
  | dropLease lease =>
    obtain ⟨dropped, hlease, rfl⟩ := Option.map_eq_some_iff.mp hnext
    exact hs.dropLease hlease
  | releaseInvalid release =>
    obtain ⟨released, -, rfl⟩ := Option.map_eq_some_iff.mp hnext
    exact { hs.releaseInvalid released with }
  | invalidateEncodedEntry failed =>
    rw [SsdSystem.next] at hnext
    split at hnext
    case isTrue hpinned =>
      rw [← Option.some.inj hnext]
      exact hs.invalidateEncodedEntry hpinned
    case isFalse => cases hnext
  | notify operation =>
    rw [SsdSystem.next] at hnext
    split at hnext
    case h_1 =>
      refine Consistent.change ?_ hnext
      exact { hs with }
    case h_2 => cases hnext
  | changeDram key metadata => exact hs.change hnext

theorem consistent_of_reachable [NeZero n] (hreach : ssdMachine.Reachable s) : s.Consistent :=
  hreach.invariant (fun _ => consistent_of_isNew) fun _ _ _ hs hnext => hs.next hnext

/-! ### The safety properties -/

def Busy (s : SsdSystem n L) (state : SsdEntryState n) : Prop :=
  state.isWriting = true ∨ 0 < s.readers state.entry.readers

/-- The write of the entry has succeeded, the entry was not invalidated, and no byte of it was
reserved again. -/
structure Trusted (log : List (SsdEvent n)) (key : StateKey) (entry : SsdIndexEntry n) : Prop where
  written : ∀ success, .wrote key entry success ∈ log ↔ success = true
  valid : .invalidated key entry ∉ log
  untouched : Untouched log key entry

structure RingSafe [NeZero n] (s : SsdSystem n L) : Prop where
  /-- A live entry does not wrap around the end of its file. -/
  inside : ∀ (key : StateKey) (state : SsdEntryState n), s.inner.ring.entries[key]? = some state →
    s.inner.ring.isOffsetValid state.entry = true →
    state.entry.fileOffset + state.entry.len ≤ (s.inner.ring.shards state.entry.shardId).capacity
  disjoint : ∀ (key other : StateKey) (state state' : SsdEntryState n),
    s.inner.ring.entries[key]? = some state → s.inner.ring.isOffsetValid state.entry = true →
    s.inner.ring.entries[other]? = some state' → s.inner.ring.isOffsetValid state'.entry = true →
    key ≠ other → ¬state.entry.Overlaps state'.entry
  /-- A reservation, failed or not, leaves the busy entries in the index and their bytes alone. -/
  spared : ∀ (step : SsdStep n) (t : SsdSystem n L), s.next step = some t → step.reserves = true →
    ∀ (key : StateKey) (state : SsdEntryState n), s.inner.ring.entries[key]? = some state →
      s.Busy state → t.inner.ring.entries[key]? = some state ∧
        ∀ other entry, .reserved other entry ∈ t.log → .reserved other entry ∉ s.log →
          ¬entry.Overlaps state.entry
  leased : ∀ lease ∈ s.leases, 0 < s.readers lease.entry.readers ∧
    ∃ state, s.inner.ring.entries[lease.key]? = some state ∧ state.entry = lease.entry
  singleWriter : (s.jobs.map WriteJob.key).Nodup
  /-- A write that reports its outcome finds its own entry being written, or none. -/
  ownCommit : ∀ job ∈ s.jobs, ∀ entry,
    s.inner.ring.entries[job.key]? = some (.writing entry) → job.reservation = some entry
  readable : ∀ key entry, s.inner.ring.get key = some entry → Trusted s.log key entry
  pins : ∀ (step : SsdStep n) (t : SsdSystem n L), s.next step = some t →
    ∀ lease ∈ t.leases, lease ∈ s.leases ∨ s.inner.ring.get lease.key = some lease.entry

omit [LruMap StateKey L] in
theorem spared_of_reserved {ring : SsdRingBuffer n}
    (hreserved : Reserved s.readers s.inner.ring ring key entry) {other : StateKey}
    {state : SsdEntryState n} (hstate : s.inner.ring.entries[other]? = some state)
    (hbusy : s.Busy state) {pending : ExtTreeSet StateKey} {history : L Unit}
    {jobs : List (WriteJob n)} :
    (s.reservedState ring pending history jobs key entry).inner.ring.entries[other]? = some state ∧
      ∀ key' entry', .reserved key' entry' ∈ (s.reservedState ring pending history jobs key entry).log →
        .reserved key' entry' ∉ s.log → ¬entry'.Overlaps state.entry := by
  obtain ⟨hne, hkept⟩ := hreserved.kept hstate hbusy
  rw [reservedState, leave_inner, leave_log]
  refine ⟨hkept, fun key' entry' hmem hnew => ?_⟩
  obtain ⟨rfl, rfl⟩ : key' = key ∧ entry' = entry := by
    simpa [startEntry, hnew] using hmem
  exact hreserved.wellFormed.not_overlaps hreserved.self hkept hne.symm

theorem Consistent.spared [NeZero n] (hs : s.Consistent) (hnext : s.next step = some t)
    (hreserves : step.reserves = true) {other : StateKey} {state : SsdEntryState n}
    (hstate : s.inner.ring.entries[other]? = some state) (hbusy : s.Busy state) :
    t.inner.ring.entries[other]? = some state ∧
      ∀ key entry, .reserved key entry ∈ t.log → .reserved key entry ∉ s.log →
        ¬entry.Overlaps state.entry := by
  cases step with
  | executeWrite job =>
    obtain ⟨key, block, -, rfl | ⟨entry, ring, hreserved, -, rfl⟩⟩ := executeWrite_cases hs hnext
    · exact ⟨hstate, fun _ _ hmem hnew => absurd hmem hnew⟩
    · exact spared_of_reserved hreserved hstate hbusy
  | reserveGpu key slots available =>
    obtain ⟨history, rfl⟩ | ⟨-, entry, ring, history, hreserved, -, rfl⟩ :=
      reserveGpu_cases hs hnext
    · exact ⟨hstate, fun _ _ hmem hnew => absurd hmem hnew⟩
    · exact spared_of_reserved hreserved hstate hbusy
  | _ => cases hreserves

omit [LruMap StateKey L] in
theorem leases_foldl_acquire (s : SsdSystem n L) (leases : List (SsdReadLease n)) :
    (leases.foldl SsdSystem.acquire s).leases = s.leases ++ leases := by
  induction leases generalizing s with
  | nil => simp
  | cons lease leases ih =>
    rw [foldl_cons, ih]
    simp [SsdSystem.acquire]

theorem Consistent.mem_leases [NeZero n] (hs : s.Consistent)
    (hnext : s.next step = some t) {lease : SsdReadLease n} (hlease : lease ∈ t.leases) :
    lease ∈ s.leases ∨ s.inner.ring.get lease.key = some lease.entry := by
  cases step with
  | pin candidate =>
    cases hnext
    unfold SsdSystem.pin at hlease
    split at hlease
    case h_1 => exact .inl hlease
    case h_2 entry hget =>
      split at hlease
      · rcases List.mem_append.mp hlease with hlease | hlease
        · exact .inl hlease
        · obtain rfl := List.mem_singleton.mp hlease
          exact .inr hget
      · exact .inl hlease
  | pinResidencies records validated =>
    cases hnext
    unfold SsdSystem.pinResidencies at hlease
    split at hlease
    · exact .inl hlease
    split at hlease
    case h_1 => exact .inl hlease
    case h_2 leases hmap =>
      rw [leases_foldl_acquire, mem_append] at hlease
      exact hlease.imp_right (get_of_mapM hmap lease)
  | dropLease position =>
    obtain ⟨dropped, -, rfl⟩ := Option.map_eq_some_iff.mp hnext
    exact .inl (mem_of_mem_eraseIdx hlease)
  | ingestBatch blocks reused permit =>
    cases hnext
    exact .inl hlease
  | dequeue job live =>
    rw [SsdSystem.next] at hnext
    split at hnext
    case h_1 =>
      cases live <;> obtain rfl := Option.some.inj hnext <;> exact .inl hlease
    case h_2 => cases hnext
  | executeWrite job =>
    obtain ⟨key, block, -, rfl | ⟨entry, ring, -, -, rfl⟩⟩ := executeWrite_cases hs hnext
    · exact .inl hlease
    · rw [reservedState, leave_leases] at hlease
      exact .inl hlease
  | commitWrite job success =>
    obtain ⟨write, -, ⟨entry, -, -, rfl⟩ | ⟨-, metadata, -, -, rfl⟩⟩ := commitWrite_cases hs hnext
    all_goals
      rw [leave_leases] at hlease
      exact .inl hlease
  | reserveGpu key slots available =>
    obtain ⟨history, rfl⟩ | ⟨-, entry, ring, history, -, -, rfl⟩ := reserveGpu_cases hs hnext
    · exact .inl hlease
    · rw [reservedState, leave_leases] at hlease
      exact .inl hlease
  | releaseInvalid release =>
    obtain ⟨released, -, rfl⟩ := Option.map_eq_some_iff.mp hnext
    exact .inl hlease
  | invalidateEncodedEntry failed =>
    rw [SsdSystem.next] at hnext
    split at hnext
    case isTrue =>
      cases hnext
      rw [SsdSystem.invalidateEncodedEntry, leave_leases] at hlease
      exact .inl hlease
    case isFalse => cases hnext
  | notify operation =>
    rw [SsdSystem.next] at hnext
    split at hnext
    case h_1 =>
      obtain ⟨_, rfl⟩ := exists_of_change hnext
      exact .inl hlease
    case h_2 => cases hnext
  | changeDram key metadata =>
      obtain ⟨_, rfl⟩ := exists_of_change hnext
      exact .inl hlease

end SsdSystem

open SsdSystem

/-- **SSD ring safety.** In every state that any interleaving of the writes, reads, invalidations
and notifications can reach, live extents are disjoint and inside their files, reservations spare
what is busy, a key has one writer, and only trusted entries are read. -/
theorem ssd_ring_safe [NeZero n] {s : SsdSystem n L} (hreach : ssdMachine.Reachable s) :
    s.RingSafe := by
  have hs := consistent_of_reachable hreach
  constructor
  case inside => exact fun key state hstate _ => hs.wellFormed.extent_subset hstate
  case disjoint =>
    exact fun key other state state' hstate _ hstate' _ hne =>
      hs.wellFormed.not_overlaps hstate hstate' hne
  case spared =>
    exact fun step t hnext hreserves key state hstate hbusy =>
      hs.spared hnext hreserves hstate hbusy
  case leased =>
    intro lease hlease
    obtain ⟨state, hstate, hentry, -⟩ := hs.leased lease hlease
    exact ⟨hs.readers_pos hlease, state, hstate, hentry⟩
  case singleWriter => exact hs.distinct
  case ownCommit => exact fun job hjob entry hwriting => hs.entry_of_writing hjob hwriting
  case readable =>
    intro key entry hget
    have hcommitted := hs.wellFormed.get_eq_some.mp hget
    obtain ⟨hwritten, hvalid⟩ := hs.readable key entry hcommitted
    exact ⟨hwritten, hvalid, hs.untouched key _ hcommitted⟩
  case pins => exact fun step t hnext lease hlease => hs.mem_leases hnext hlease

def ssdKey (name : UInt8) : StateKey := ⟨"model", [name]⟩

def ssdBlock : SealedBlock := ⟨1, [⟨none, [⟨0, 3⟩], 3⟩], 3⟩

def smallStore (capacity : Nat) : SsdSystem 1 (LruList StateKey) :=
  .new (fun _ => capacity) 4 .all (some 4096)

theorem smallStore_isNew (capacity : Nat) : (smallStore capacity).IsNew :=
  ⟨fun _ => capacity, 4, .all, some 4096, rfl⟩

/-- The first entry is leased and the second being written when a third write asks for a range. -/
def busySteps : List (SsdStep 1) :=
  [.ingestBatch [(ssdKey 1, ssdBlock)] false true, .dequeue 0 true, .executeWrite 0,
    .commitWrite 0 true, .notify 0, .pin ⟨ssdKey 1, ⟨0, 0, 4, 0, [], .raw, 0⟩⟩,
    .reserveGpu (ssdKey 2) [.new [4]] true, .ingestBatch [(ssdKey 3, ssdBlock)] false true,
    .dequeue 1 true, .executeWrite 1]

theorem ssd_ring_safe_busy :
    ∃ s : SsdSystem 1 (LruList StateKey), ssdMachine.Reachable s ∧
      s.leases.map (·.key) = [ssdKey 1] ∧ s.jobs.map WriteJob.key = [ssdKey 2, ssdKey 3] ∧
      s.jobs.map (·.reservation.isSome) = [true, false] ∧ s.RingSafe := by
  have hrun : (busySteps.foldlM SsdSystem.next (smallStore 8)).any (fun s =>
      s.leases.map (·.key) = [ssdKey 1] ∧ s.jobs.map WriteJob.key = [ssdKey 2, ssdKey 3] ∧
        s.jobs.map (·.reservation.isSome) = [true, false]) = true := by
    decide +kernel
  obtain ⟨s, hreach, hleases, hkeys, hentries⟩ :=
    ssdMachine.exists_reachable rfl (smallStore_isNew 8) hrun
  exact ⟨s, hreach, hleases, hkeys, hentries, ssd_ring_safe hreach⟩

end OrbitKV
