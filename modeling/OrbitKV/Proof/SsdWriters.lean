import OrbitKV.Lib.Keyed
import OrbitKV.Proof.SsdRing
import OrbitKV.Storage.Ssd

/-!
# Writers and readers of the SSD store

The log of the events says where an entry that may be read has come from.
-/

namespace OrbitKV

open Std List

open SsdRingBuffer (Reserved expired sameGeneration)

variable {n : Nat} {L : Type → Type}

def Untouched (log : List (SsdEvent n)) (key : StateKey) (entry : SsdIndexEntry n) : Prop :=
  ∃ before after, log = before ++ .reserved key entry :: after ∧
    ∀ other entry', .reserved other entry' ∈ after → ¬entry'.Overlaps entry

section Log

variable {log : List (SsdEvent n)} {event : SsdEvent n} {key : StateKey} {entry : SsdIndexEntry n}

theorem Untouched.mem (huntouched : Untouched log key entry) : .reserved key entry ∈ log := by
  obtain ⟨before, after, rfl, -⟩ := huntouched
  exact mem_append_right _ mem_cons_self

theorem untouched_reserved : Untouched (log ++ [.reserved key entry]) key entry :=
  ⟨log, [], rfl, nofun⟩

theorem Untouched.snoc (huntouched : Untouched log key entry)
    (hevent : ∀ other entry', event = .reserved other entry' → ¬entry'.Overlaps entry) :
    Untouched (log ++ [event]) key entry := by
  obtain ⟨before, after, rfl, hafter⟩ := huntouched
  refine ⟨before, after ++ [event], by simp, fun other entry' hmem => ?_⟩
  rcases List.mem_append.mp hmem with hmem | hmem
  · exact hafter other entry' hmem
  · exact hevent other entry' (List.mem_singleton.mp hmem).symm

end Log

namespace SsdSystem

variable {lease : SsdReadLease n}

/-- The books of the store: the ring against the writes on their way, the leases and the log. -/
structure Consistent (s : SsdSystem n L) : Prop where
  wellFormed : s.inner.ring.WellFormed
  drained : s.inner.ring.retired = []
  distinct : (s.jobs.map WriteJob.key).Nodup
  pending : ∀ key, key ∈ s.inner.pendingWrites ↔ key ∈ s.jobs.map WriteJob.key
  writing : ∀ (key : StateKey) (entry : SsdIndexEntry n),
    s.inner.ring.entries[key]? = some (.writing entry) ↔
      ∃ job ∈ s.jobs, job.key = key ∧ job.reservation = some entry
  counted : ∀ cell, s.readers cell = s.leases.countP (·.entry.readers = cell)
  leased : ∀ lease ∈ s.leases, ∃ state, s.inner.ring.entries[lease.key]? = some state ∧
    state.entry = lease.entry ∧ state.isWriting = false
  untouched : ∀ (key : StateKey) (state : SsdEntryState n),
    s.inner.ring.entries[key]? = some state → Untouched s.log key state.entry
  generation : ∀ key entry key' entry', .reserved key entry ∈ s.log → .reserved key' entry' ∈ s.log →
    entry.shardId = entry'.shardId → entry.begin = entry'.begin → entry = entry'
  past : ∀ key entry, .reserved key entry ∈ s.log →
    entry.begin < (s.inner.ring.shards entry.shardId).head ∧ entry.readers < s.cells
  wrote : ∀ key entry success, .wrote key entry success ∈ s.log → .reserved key entry ∈ s.log
  pinned : ∀ key entry, .pinned key entry ∈ s.log → .reserved key entry ∈ s.log
  invalidated : ∀ key entry, .invalidated key entry ∈ s.log → .pinned key entry ∈ s.log
  unread : ∀ (key : StateKey) (entry : SsdIndexEntry n),
    s.inner.ring.entries[key]? = some (.writing entry) →
      .pinned key entry ∉ s.log ∧ ∀ success, .wrote key entry success ∉ s.log
  readable : ∀ (key : StateKey) (entry : SsdIndexEntry n),
    s.inner.ring.entries[key]? = some (.committed entry) →
      (∀ success, .wrote key entry success ∈ s.log ↔ success = true) ∧ .invalidated key entry ∉ s.log

variable {s t : SsdSystem n L} {key : StateKey} {entry : SsdIndexEntry n}

theorem consistent_of_isNew [LruMap StateKey L] [NeZero n] (hnew : s.IsNew) : s.Consistent := by
  obtain ⟨shardCapacities, alignment, policy, journalBytes, rfl⟩ := hnew
  constructor
  case wellFormed => exact SsdRingBuffer.wellFormed_newSharded shardCapacities alignment
  all_goals simp [new, SsdRingBuffer.newSharded]

@[simp] theorem leave_inner (notices : List Notice) : (s.leave notices).inner = s.inner := by
  unfold SsdSystem.leave
  split <;> rfl

@[simp] theorem leave_leases (notices : List Notice) : (s.leave notices).leases = s.leases := by
  unfold SsdSystem.leave
  split <;> rfl

@[simp] theorem leave_log (notices : List Notice) : (s.leave notices).log = s.log := by
  unfold SsdSystem.leave
  split <;> rfl

theorem Consistent.leave (hs : s.Consistent) (notices : List Notice) :
    (s.leave notices).Consistent := by
  unfold SsdSystem.leave
  split
  · exact hs
  · exact { hs with }

theorem exists_of_change {medium : ReplicaMedium} {metadata : Option ReplicaMetadata}
    (hchange : s.change key medium metadata = some t) :
    ∃ inventory, { s with inventory := inventory } = t := by
  unfold SsdSystem.change at hchange
  split at hchange
  · exact ⟨s.inventory, Option.some.inj hchange⟩
  · obtain ⟨inventory, -, hset⟩ := Option.map_eq_some_iff.mp hchange
    exact ⟨_, hset⟩

theorem Consistent.change (hs : s.Consistent) {medium : ReplicaMedium}
    {metadata : Option ReplicaMetadata} (hchange : s.change key medium metadata = some t) :
    t.Consistent := by
  obtain ⟨inventory, rfl⟩ := exists_of_change hchange
  exact { hs with }

/-! ### Leases -/

theorem Consistent.readers_pos (hs : s.Consistent)
    (hlease : lease ∈ s.leases) : 0 < s.readers lease.entry.readers := by
  rw [hs.counted, countP_pos_iff]
  exact ⟨lease, hlease, by simp⟩

theorem Consistent.acquire (hs : s.Consistent)
    (hget : s.inner.ring.get lease.key = some lease.entry) : (s.acquire lease).Consistent := by
  have hcommitted := hs.wellFormed.get_eq_some.mp hget
  have huntouched := hs.untouched _ _ hcommitted
  refine ⟨hs.wellFormed, hs.drained, hs.distinct, hs.pending, hs.writing, fun cell => ?_, ?_, ?_,
    ?_, ?_, ?_, ?_, ?_, ?_, ?_⟩
  · simp only [SsdSystem.acquire, countP_append, countP_singleton]
    rw [← hs.counted cell]
    by_cases heq : cell = lease.entry.readers
    · simp [heq]
    · simp [heq, Ne.symm heq]
  · intro other hother
    rcases List.mem_append.mp hother with hother | hother
    · exact hs.leased other hother
    · obtain rfl := List.mem_singleton.mp hother
      exact ⟨_, hcommitted, rfl, rfl⟩
  · intro key state hstate
    exact (hs.untouched key state hstate).snoc nofun
  all_goals simp only [SsdSystem.acquire, mem_append, mem_singleton, reduceCtorEq, or_false]
  · exact hs.generation
  · exact hs.past
  · exact hs.wrote
  · rintro key entry (hmem | heq)
    · exact hs.pinned key entry hmem
    · obtain ⟨rfl, rfl⟩ := by simpa using heq
      exact huntouched.mem
  · exact fun key entry hmem => .inl (hs.invalidated key entry hmem)
  · intro key entry hwriting
    refine ⟨?_, (hs.unread key entry hwriting).2⟩
    rintro (hmem | heq)
    · exact (hs.unread key entry hwriting).1 hmem
    · obtain ⟨rfl, rfl⟩ := by simpa using heq
      simp [hcommitted] at hwriting
  · exact hs.readable

theorem Consistent.dropLease (hs : s.Consistent) {position : Nat}
    (hlease : s.leases[position]? = some lease) : (s.dropLease position lease).Consistent := by
  have hpos := hs.readers_pos (mem_of_getElem? hlease)
  refine { hs with counted := fun cell => ?_, leased := ?_ }
  · have hcount := countP_eraseIdx hlease fun other => other.entry.readers = cell
    rw [← hs.counted cell] at hcount
    by_cases heq : cell = lease.entry.readers
    · simp only [← heq, decide_true, if_true] at hcount
      simp only [SsdSystem.dropLease, ← heq, Function.update_self]
      omega
    · simp only [Ne.symm heq, decide_false, Bool.false_eq_true, if_false, Nat.add_zero] at hcount
      simp only [SsdSystem.dropLease, Function.update_of_ne heq]
      exact hcount
  · intro other hother
    exact hs.leased other (mem_of_mem_eraseIdx hother)

theorem Consistent.pin (hs : s.Consistent) (candidate : SsdReadLease n) :
    (s.pin candidate).Consistent := by
  unfold SsdSystem.pin
  split
  case h_1 => exact hs
  case h_2 entry hget =>
    split
    · exact hs.acquire hget
    · exact hs

theorem Consistent.foldl_acquire (hs : s.Consistent) (leases : List (SsdReadLease n))
    (hget : ∀ lease ∈ leases, s.inner.ring.get lease.key = some lease.entry) :
    (leases.foldl SsdSystem.acquire s).Consistent := by
  induction leases generalizing s with
  | nil => exact hs
  | cons lease leases ih =>
    apply ih (hs.acquire (hget lease mem_cons_self))
    exact fun other hother => hget other (mem_cons_of_mem _ hother)

theorem get_of_mapM {ring : SsdRingBuffer n} {records : List InventoryRecord}
    {leases : List (SsdReadLease n)}
    (hmap : (records.mapM fun record =>
      (ring.get record.key).map (SsdReadLease.mk record.key)) = some leases) :
    ∀ lease ∈ leases, ring.get lease.key = some lease.entry := by
  induction records generalizing leases with
  | nil =>
    obtain rfl : [] = leases := by simpa using hmap
    exact nofun
  | cons record records ih =>
    simp only [mapM_cons, Option.bind_eq_bind, Option.bind_eq_some_iff, Option.pure_def,
      Option.some.injEq] at hmap
    obtain ⟨first, hfirst, rest, hrest, rfl⟩ := hmap
    obtain ⟨entry, hget, rfl⟩ := Option.map_eq_some_iff.mp hfirst
    intro lease hlease
    rcases List.mem_cons.mp hlease with rfl | hlease
    · exact hget
    · exact ih hrest lease hlease

theorem Consistent.pinResidencies (hs : s.Consistent) (records : List InventoryRecord)
    (validated : Bool) : (s.pinResidencies records validated).Consistent := by
  unfold SsdSystem.pinResidencies
  split
  · exact hs
  split
  case h_1 => exact hs
  case h_2 leases hmap => exact hs.foldl_acquire leases (get_of_mapM hmap)

/-! ### Invalidation -/

theorem Consistent.withdraw (hs : s.Consistent) {state : SsdEntryState n}
    {entries : ExtTreeMap StateKey (SsdEntryState n)}
    (hstate : s.inner.ring.entries[key]? = some state) (hnot : state.isWriting = false)
    (hother : ∀ other : StateKey, other ≠ key → entries[other]? = s.inner.ring.entries[other]?)
    (hself : entries[key]? = some (SsdEntryState.invalid state.entry) ∨
      entries[key]? = none ∧ s.readers state.entry.readers = 0) :
    (s.withRing { s.inner.ring with entries := entries }).Consistent := by
  have hold : ∀ (other : StateKey) (new : SsdEntryState n), entries[other]? = some new →
      s.inner.ring.entries[other]? = some new ∨ other = key ∧ new = .invalid state.entry := by
    intro other new hnew
    by_cases heq : other = key
    · rcases hself with hself | ⟨hself, -⟩
      · rw [heq, hself, Option.some.injEq] at hnew
        exact .inr ⟨heq, hnew.symm⟩
      · rw [heq, hself] at hnew
        cases hnew
    · exact .inl ((hother other heq).symm.trans hnew)
  have hsame : ∀ (other : StateKey) (new : SsdEntryState n), new ≠ .invalid state.entry →
      entries[other]? = some new → s.inner.ring.entries[other]? = some new :=
    fun other new hne hnew => (hold other new hnew).resolve_right fun h => hne h.2
  refine { hs with
    wellFormed := ?_
    writing := fun other entry => ?_
    leased := fun lease hlease => ?_
    untouched := fun other new hnew => ?_
    unread := fun other entry hnew => hs.unread other entry (hsame other _ nofun hnew)
    readable := fun other entry hnew => hs.readable other entry (hsame other _ nofun hnew) }
  · refine hs.wellFormed.withEntries fun other new hnew => ?_
    rcases hold other new hnew with hnew | ⟨rfl, rfl⟩
    · exact ⟨new, hnew, rfl⟩
    · exact ⟨state, hstate, rfl⟩
  · refine Iff.trans ⟨hsame other _ nofun, fun hwriting => ?_⟩ (hs.writing other entry)
    have hne : other ≠ key := by
      rintro rfl
      rw [hstate, Option.some.injEq] at hwriting
      simp [hwriting, SsdEntryState.isWriting] at hnot
    exact (hother other hne).trans hwriting
  · obtain ⟨found, hfound, hentry, hnot'⟩ := hs.leased lease hlease
    by_cases heq : lease.key = key
    · rw [heq, hstate, Option.some.injEq] at hfound
      subst hfound
      rcases hself with hself | ⟨-, hzero⟩
      · exact ⟨.invalid state.entry, heq ▸ hself, hentry, rfl⟩
      · have hpos := hs.readers_pos hlease
        rw [hentry] at hzero
        omega
    · exact ⟨found, (hother lease.key heq).trans hfound, hentry, hnot'⟩
  · rcases hold other new hnew with hnew | ⟨rfl, rfl⟩
    · exact hs.untouched other new hnew
    · exact hs.untouched other state hstate

theorem Consistent.logInvalidated (hs : s.Consistent) (hpinned : .pinned key entry ∈ s.log)
    (hhidden : s.inner.ring.entries[key]? ≠ some (.committed entry)) :
    Consistent { s with log := s.log ++ [.invalidated key entry] } := by
  refine ⟨hs.wellFormed, hs.drained, hs.distinct, hs.pending, hs.writing, hs.counted, hs.leased,
    fun other state hstate => (hs.untouched other state hstate).snoc nofun, ?_, ?_, ?_, ?_, ?_, ?_, ?_⟩
  all_goals simp only [mem_append, mem_singleton, reduceCtorEq, or_false]
  · exact hs.generation
  · exact hs.past
  · exact hs.wrote
  · exact hs.pinned
  · rintro other entry' (hmem | heq)
    · exact hs.invalidated other entry' hmem
    · obtain ⟨rfl, rfl⟩ := by simpa using heq
      exact hpinned
  · exact hs.unread
  · intro other entry' hcommitted
    refine ⟨(hs.readable other entry' hcommitted).1, ?_⟩
    rintro (hmem | heq)
    · exact (hs.readable other entry' hcommitted).2 hmem
    · obtain ⟨rfl, rfl⟩ := by simpa using heq
      exact hhidden hcommitted

theorem Consistent.eq_of_sameGeneration (hs : s.Consistent) {state : SsdEntryState n}
    (hstate : s.inner.ring.entries[key]? = some state) (hpinned : .pinned key entry ∈ s.log)
    (hsame : sameGeneration state.entry entry = true) : state.entry = entry := by
  simp only [sameGeneration, Bool.and_eq_true, decide_eq_true_eq] at hsame
  exact hs.generation key state.entry key entry (hs.untouched key state hstate).mem
    (hs.pinned key entry hpinned) hsame.1 hsame.2

theorem invalidateEncoded_cases (readers : Nat → Nat) (ring : SsdRingBuffer n) (key : StateKey)
    (failed : SsdIndexEntry n) :
    (∃ state, ring.entries[key]? = some state ∧ state.isWriting = false ∧
        sameGeneration state.entry failed = true ∧ state.entry.encoding = .encoded ∧
        SsdRingBuffer.invalidateEncoded readers ring key failed = (true, { ring with
          entries :=
            if readers failed.readers = 0 then ring.entries.erase key
            else ring.entries.insert key (.invalid failed) })) ∨
      SsdRingBuffer.invalidateEncoded readers ring key failed = (false, ring) ∧
        (failed.encoding = .encoded → ring.entries[key]? ≠ some (.committed failed)) := by
  unfold SsdRingBuffer.invalidateEncoded
  cases hstate : ring.entries[key]? with
  | none => exact .inr ⟨rfl, nofun⟩
  | some state =>
    cases state with
    | writing found => exact .inr ⟨rfl, nofun⟩
    | committed found =>
      dsimp only
      split
      case isTrue hmatch =>
        rw [Bool.and_eq_true, decide_eq_true_eq] at hmatch
        exact .inl ⟨_, rfl, rfl, hmatch.1, hmatch.2, rfl⟩
      case isFalse hmiss =>
        refine .inr ⟨rfl, fun hencoded heq => hmiss ?_⟩
        obtain rfl : found = failed := by simpa using heq
        simp [sameGeneration, hencoded]
    | invalid found =>
      dsimp only
      split
      case isTrue hmatch =>
        rw [Bool.and_eq_true, decide_eq_true_eq] at hmatch
        exact .inl ⟨_, rfl, rfl, hmatch.1, hmatch.2, rfl⟩
      case isFalse => exact .inr ⟨rfl, fun _ => nofun⟩

theorem Consistent.invalidateEncodedEntry (hs : s.Consistent) {failed : SsdReadLease n}
    (hpinned : .pinned failed.key failed.entry ∈ s.log) :
    (s.invalidateEncodedEntry failed).Consistent := by
  unfold SsdSystem.invalidateEncodedEntry
  rcases invalidateEncoded_cases s.readers s.inner.ring failed.key failed.entry with
    ⟨state, hstate, hnot, hsame, hencoded, hresult⟩ | ⟨hresult, hhidden⟩
  · have hentry := hs.eq_of_sameGeneration hstate hpinned hsame
    rw [hentry] at hencoded
    rw [hresult]
    dsimp only
    rw [if_pos hencoded]
    apply Consistent.leave
    refine Consistent.logInvalidated (s := s.withRing _) ?_ hpinned ?_
    · apply hs.withdraw hstate hnot
      · intro other hne
        split
        · simp [ExtTreeMap.getElem?_erase, hne.symm]
        · exact getElem?_insert_of_ne hne.symm
      · rw [hentry]
        split
        case isTrue hzero => exact .inr ⟨ExtTreeMap.getElem?_erase_self, hzero⟩
        case isFalse => exact .inl ExtTreeMap.getElem?_insert_self
    · dsimp only [withRing]
      split <;> simp
  · rw [hresult]
    dsimp only
    apply Consistent.leave
    split
    case isTrue hencoded =>
      exact Consistent.logInvalidated (s := s.withRing s.inner.ring) hs hpinned (hhidden hencoded)
    case isFalse => exact hs

theorem Consistent.releaseInvalid (hs : s.Consistent) (released : SsdReadLease n) :
    (s.withRing (s.inner.ring.releaseInvalid s.readers released.key released.entry)).Consistent := by
  unfold SsdRingBuffer.releaseInvalid
  split
  case h_1 found hstate =>
    split
    case isTrue hmatch =>
      rw [Bool.and_eq_true, decide_eq_true_eq] at hmatch
      apply hs.withdraw hstate rfl
      · intro other hne
        simp [ExtTreeMap.getElem?_erase, hne.symm]
      · exact .inr ⟨ExtTreeMap.getElem?_erase_self, hmatch.2⟩
    case isFalse => exact hs
  case h_2 => exact hs

/-! ### Writes on their way -/

variable {position : Nat} {job new : WriteJob n}

section

variable (hs : s.Consistent)

include hs

theorem Consistent.eq_of_key {other : WriteJob n} (hjob : job ∈ s.jobs)
    (hother : other ∈ s.jobs) (hkey : job.key = other.key) : job = other :=
  inj_on_of_nodup_map hs.distinct hjob hother hkey

theorem Consistent.entry_of_writing (hjob : job ∈ s.jobs)
    (hwriting : s.inner.ring.entries[job.key]? = some (.writing entry)) :
    job.reservation = some entry := by
  obtain ⟨writer, hwriter, hkey, hentry⟩ := (hs.writing job.key entry).mp hwriting
  rw [hs.eq_of_key hjob hwriter hkey.symm]
  exact hentry

theorem Consistent.replaceJob (hjob : s.jobs[position]? = some job)
    (hentry : job.reservation = none) (hkey : new.key = job.key) (hnew : new.reservation = none) :
    Consistent { s with jobs := s.jobs.set position new } := by
  have hmap : (s.jobs.set position new).map WriteJob.key = s.jobs.map WriteJob.key :=
    map_set_of_eq hjob hkey
  refine { hs with distinct := ?_, pending := fun key => ?_, writing := fun key entry => ?_ }
  · dsimp only
    rw [hmap]
    exact hs.distinct
  · dsimp only
    rw [hmap]
    exact hs.pending key
  · refine (hs.writing key entry).trans ⟨?_, ?_⟩
    · rintro ⟨other, hother, hkey', hentry'⟩
      refine ⟨other, (mem_set_iff hs.distinct hjob).mpr (.inr ⟨hother, fun heq => ?_⟩), hkey', hentry'⟩
      rw [hs.eq_of_key hother (mem_of_getElem? hjob) heq, hentry] at hentry'
      cases hentry'
    · rintro ⟨other, hother, hkey', hentry'⟩
      rcases (mem_set_iff hs.distinct hjob).mp hother with rfl | ⟨hother, -⟩
      · rw [hnew] at hentry'
        cases hentry'
      · exact ⟨other, hother, hkey', hentry'⟩

theorem Consistent.pending_erase (hjob : s.jobs[position]? = some job)
    (key : StateKey) : key ∈ s.inner.pendingWrites.erase job.key ↔
      key ∈ (s.jobs.eraseIdx position).map WriteJob.key := by
  rw [ExtTreeSet.mem_erase, hs.pending, mem_map, mem_map]
  simp only [mem_eraseIdx_iff hs.distinct hjob, ne_eq, Std.compare_eq_iff_eq]
  constructor
  · rintro ⟨hne, other, hother, rfl⟩
    exact ⟨other, ⟨hother, Ne.symm hne⟩, rfl⟩
  · rintro ⟨other, ⟨hother, hne⟩, rfl⟩
    exact ⟨Ne.symm hne, other, hother, rfl⟩

theorem Consistent.removeJob (hjob : s.jobs[position]? = some job)
    (hentry : job.reservation = none) :
    Consistent { s with
      inner := { s.inner with pendingWrites := s.inner.pendingWrites.erase job.key }
      jobs := s.jobs.eraseIdx position } := by
  refine { hs with
    distinct := ?_, pending := hs.pending_erase hjob, writing := fun key entry => ?_ }
  · exact hs.distinct.sublist ((eraseIdx_sublist _ _).map _)
  · refine (hs.writing key entry).trans ⟨?_, ?_⟩
    · rintro ⟨other, hother, hkey, hentry'⟩
      refine ⟨other, (mem_eraseIdx_iff hs.distinct hjob).mpr ⟨hother, fun heq => ?_⟩, hkey, hentry'⟩
      rw [hs.eq_of_key hother (mem_of_getElem? hjob) heq, hentry] at hentry'
      cases hentry'
    · rintro ⟨other, hother, hkey, hentry'⟩
      exact ⟨other, ((mem_eraseIdx_iff hs.distinct hjob).mp hother).1, hkey, hentry'⟩

theorem Consistent.finish (hjob : s.jobs[position]? = some job)
    (hentry : job.reservation = some entry) (success : Bool)
    {entries : ExtTreeMap StateKey (SsdEntryState n)}
    (hother : ∀ other : StateKey, other ≠ job.key → entries[other]? = s.inner.ring.entries[other]?)
    (hself : entries[job.key]? = if success then some (SsdEntryState.committed entry) else none) :
    Consistent { s with
      inner := { s.inner with
        ring := { s.inner.ring with entries := entries, retired := [] }
        pendingWrites := s.inner.pendingWrites.erase job.key }
      jobs := s.jobs.eraseIdx position
      log := s.log ++ [.wrote job.key entry success] } := by
  have hmem := mem_of_getElem? hjob
  have hwriting : s.inner.ring.entries[job.key]? = some (.writing entry) :=
    (hs.writing job.key entry).mpr ⟨job, hmem, rfl, hentry⟩
  obtain ⟨hunpinned, hunwritten⟩ := hs.unread job.key entry hwriting
  have huntouched := hs.untouched job.key _ hwriting
  have hold : ∀ (other : StateKey) (state : SsdEntryState n), entries[other]? = some state →
      other ≠ job.key ∧ s.inner.ring.entries[other]? = some state ∨
        other = job.key ∧ state = .committed entry ∧ success = true := by
    intro other state hstate
    by_cases heq : other = job.key
    · rw [heq, hself] at hstate
      split at hstate
      case isTrue hsuccess => exact .inr ⟨heq, (Option.some.inj hstate).symm, hsuccess⟩
      case isFalse => cases hstate
    · exact .inl ⟨heq, (hother other heq).symm.trans hstate⟩
  refine ⟨?_, rfl, ?_, hs.pending_erase hjob, fun key found => ?_, hs.counted, fun lease hlease => ?_,
    fun key state hstate => ?_, ?_, ?_, ?_, ?_, ?_, ?_, ?_⟩
  · have hwf : SsdRingBuffer.WellFormed { s.inner.ring with entries := entries } := by
      refine hs.wellFormed.withEntries fun key state hstate => ?_
      rcases hold key state hstate with ⟨-, hstate⟩ | ⟨rfl, rfl, -⟩
      · exact ⟨state, hstate, rfl⟩
      · exact ⟨_, hwriting, rfl⟩
    exact hwf.withRetired []
  · exact hs.distinct.sublist ((eraseIdx_sublist _ _).map _)
  · constructor
    · intro hfound
      rcases hold key _ hfound with ⟨hne, hfound⟩ | ⟨-, hcommitted, -⟩
      · obtain ⟨other, hother', hkey, hentry'⟩ := (hs.writing key found).mp hfound
        exact ⟨other, (mem_eraseIdx_iff hs.distinct hjob).mpr ⟨hother', hkey ▸ hne⟩, hkey, hentry'⟩
      · cases hcommitted
    · rintro ⟨other, hother', rfl, hentry'⟩
      obtain ⟨hother', hne⟩ := (mem_eraseIdx_iff hs.distinct hjob).mp hother'
      exact (hother other.key hne).trans
        ((hs.writing other.key found).mpr ⟨other, hother', rfl, hentry'⟩)
  · obtain ⟨state, hstate, hentry', hnot⟩ := hs.leased lease hlease
    have hne : lease.key ≠ job.key := by
      intro heq
      rw [heq, hwriting, Option.some.injEq] at hstate
      simp [← hstate, SsdEntryState.isWriting] at hnot
    exact ⟨state, (hother lease.key hne).trans hstate, hentry', hnot⟩
  · rcases hold key state hstate with ⟨-, hstate⟩ | ⟨rfl, rfl, -⟩
    · exact (hs.untouched key state hstate).snoc nofun
    · exact huntouched.snoc nofun
  all_goals simp only [mem_append, mem_singleton, reduceCtorEq, or_false]
  · exact hs.generation
  · exact hs.past
  · rintro key found outcome (hmem | heq)
    · exact hs.wrote key found outcome hmem
    · obtain ⟨rfl, rfl, -⟩ := by simpa using heq
      exact huntouched.mem
  · exact hs.pinned
  · exact hs.invalidated
  · intro key found hfound
    rcases hold key _ hfound with ⟨hne, hfound⟩ | ⟨-, hcommitted, -⟩
    · refine ⟨(hs.unread key found hfound).1, fun outcome => ?_⟩
      rintro (hmem | heq)
      · exact (hs.unread key found hfound).2 outcome hmem
      · exact hne (SsdEvent.wrote.inj heq).1
    · cases hcommitted
  · intro key found hfound
    rcases hold key _ hfound with ⟨hne, hfound⟩ | ⟨rfl, hcommitted, rfl⟩
    · obtain ⟨hwrote, hvalid⟩ := hs.readable key found hfound
      refine ⟨fun outcome => ?_, hvalid⟩
      rw [← hwrote outcome]
      exact or_iff_left fun heq => hne (SsdEvent.wrote.inj heq).1
    · obtain rfl : found = entry := by simpa using hcommitted
      refine ⟨fun outcome => ?_, fun hmem => hunpinned (hs.invalidated _ _ hmem)⟩
      rw [or_iff_right (hunwritten outcome)]
      simp

theorem Consistent.start {ring' : SsdRingBuffer n} {jobs : List (WriteJob n)}
    {pending : ExtTreeSet StateKey} {history : L Unit}
    (hreserved : Reserved s.readers s.inner.ring ring' key entry) (hcell : entry.readers = s.cells)
    (hdistinct : (jobs.map WriteJob.key).Nodup)
    (hpending : ∀ other, other ∈ pending ↔ other ∈ jobs.map WriteJob.key)
    (hself : ∃ job ∈ jobs, job.key = key ∧ job.reservation = some entry)
    (hjobs : ∀ job, job.key ≠ key → (job ∈ jobs ↔ job ∈ s.jobs)) :
    (startEntry { s with
      inner := ⟨{ ring' with retired := [] }, pending, history⟩
      jobs := jobs } key entry).Consistent := by
  have hless : ∀ other found, .reserved other found ∈ s.log → found.shardId = entry.shardId →
      found.begin ≠ entry.begin := by
    intro other found hmem hshard
    have hlt := (hs.past other found hmem).1
    rw [hshard] at hlt
    exact (hlt.trans_le hreserved.fresh).ne
  have hfresh : .reserved key entry ∉ s.log := fun hmem => hless key entry hmem rfl rfl
  have hnew : SsdRingBuffer.Placed _ key entry := hreserved.wellFormed.placed key _ hreserved.self
  have hcells : ∀ lease ∈ s.leases, lease.entry.readers < s.cells := by
    intro lease hlease
    obtain ⟨state, hstate, hentry, -⟩ := hs.leased lease hlease
    rw [← hentry]
    exact (hs.past _ _ (hs.untouched _ state hstate).mem).2
  refine ⟨hreserved.wellFormed.withRetired [], rfl, hdistinct, hpending, fun other found => ?_,
    fun cell => ?_, fun lease hlease => ?_, fun other state hstate => ?_, ?_, ?_, ?_, ?_, ?_, ?_, ?_⟩
  · constructor
    · intro hfound
      rcases hreserved.eq_of_getElem? hfound with ⟨hne, hfound⟩ | ⟨rfl, heq⟩
      · obtain ⟨job, hjob, rfl, hentry⟩ := (hs.writing other found).mp hfound
        exact ⟨job, (hjobs job hne).mpr hjob, rfl, hentry⟩
      · obtain rfl : found = entry := by simpa using heq
        exact hself
    · rintro ⟨job, hjob, rfl, hentry⟩
      by_cases heq : job.key = key
      · obtain ⟨writer, hwriter, hkey, hwrites⟩ := hself
        have hsame := inj_on_of_nodup_map hdistinct hjob hwriter (heq.trans hkey.symm)
        rw [hsame, hwrites, Option.some.injEq] at hentry
        rw [heq, ← hentry]
        exact hreserved.self
      · have hwriting := (hs.writing job.key found).mpr ⟨job, (hjobs job heq).mp hjob, rfl, hentry⟩
        exact (hreserved.kept hwriting (.inl rfl)).2
  · change Function.update s.readers s.cells 0 cell = _
    by_cases heq : cell = s.cells
    · rw [heq, Function.update_self, eq_comm, countP_eq_zero]
      intro lease hlease
      simpa using (hcells lease hlease).ne
    · rw [Function.update_of_ne heq]
      exact hs.counted cell
  · obtain ⟨state, hstate, hentry, hnot⟩ := hs.leased lease hlease
    refine ⟨state, (hreserved.kept hstate (.inr ?_)).2, hentry, hnot⟩
    rw [hentry]
    exact hs.readers_pos hlease
  · rcases hreserved.eq_of_getElem? hstate with ⟨hne, hold⟩ | ⟨rfl, rfl⟩
    · refine (hs.untouched other state hold).snoc fun key' entry' heq => ?_
      obtain ⟨rfl, rfl⟩ := SsdEvent.reserved.inj heq
      exact hreserved.wellFormed.not_overlaps hreserved.self hstate hne.symm
    · exact untouched_reserved
  all_goals simp only [startEntry, mem_append, mem_singleton, reduceCtorEq, or_false]
  · rintro key₁ entry₁ key₂ entry₂ (hmem₁ | heq₁) (hmem₂ | heq₂) hshard hbegin
    · exact hs.generation key₁ entry₁ key₂ entry₂ hmem₁ hmem₂ hshard hbegin
    · obtain ⟨-, rfl⟩ := SsdEvent.reserved.inj heq₂
      exact absurd hbegin (hless key₁ entry₁ hmem₁ hshard)
    · obtain ⟨-, rfl⟩ := SsdEvent.reserved.inj heq₁
      exact absurd hbegin.symm (hless key₂ entry₂ hmem₂ hshard.symm)
    · rw [(SsdEvent.reserved.inj heq₁).2, (SsdEvent.reserved.inj heq₂).2]
  · rintro other found (hmem | heq)
    · obtain ⟨hbegin, hcells⟩ := hs.past other found hmem
      exact ⟨hbegin.trans_le (hreserved.heads _), by omega⟩
    · obtain ⟨-, rfl⟩ := SsdEvent.reserved.inj heq
      exact ⟨(Nat.lt_add_of_pos_right hnew.pos).trans_le hnew.below, by omega⟩
  · exact fun other found outcome hmem => .inl (hs.wrote other found outcome hmem)
  · exact fun other found hmem => .inl (hs.pinned other found hmem)
  · exact hs.invalidated
  · intro other found hfound
    rcases hreserved.eq_of_getElem? hfound with ⟨-, hfound⟩ | ⟨rfl, heq⟩
    · exact hs.unread other found hfound
    · obtain rfl : found = entry := by simpa using heq
      exact ⟨fun hmem => hfresh (hs.pinned _ _ hmem), fun _ hmem => hfresh (hs.wrote _ _ _ hmem)⟩
  · intro other found hfound
    rcases hreserved.eq_of_getElem? hfound with ⟨-, hfound⟩ | ⟨-, heq⟩
    · exact hs.readable other found hfound
    · cases heq

theorem Consistent.ingest {sent : List (StateKey × SealedBlock)}
    {pending : ExtTreeSet StateKey} {history : L Unit} (hnodup : (sent.map Prod.fst).Nodup)
    (hfresh : ∀ item ∈ sent, item.1 ∉ s.inner.pendingWrites)
    (hpending : ∀ key, key ∈ pending ↔ key ∈ s.inner.pendingWrites ∨ key ∈ sent.map Prod.fst) :
    Consistent { s with
      inner := ⟨s.inner.ring, pending, history⟩
      jobs := s.jobs ++ sent.map fun item => .queued item.1 item.2 } := by
  have hkeys : (sent.map fun item => (.queued item.1 item.2 : WriteJob n)).map WriteJob.key =
      sent.map Prod.fst := by
    rw [map_map]
    rfl
  refine { hs with distinct := ?_, pending := fun key => ?_, writing := fun key entry => ?_ }
  · dsimp only
    rw [map_append, hkeys, nodup_append]
    refine ⟨hs.distinct, hnodup, fun key hkey other hother heq => ?_⟩
    obtain ⟨item, hitem, rfl⟩ := List.mem_map.mp hother
    exact hfresh item hitem ((hs.pending item.1).mpr (heq ▸ hkey))
  · dsimp only
    rw [map_append, hkeys, mem_append, ← hs.pending key]
    exact hpending key
  · refine (hs.writing key entry).trans ⟨?_, ?_⟩
    · rintro ⟨job, hjob, hkey, hentry⟩
      exact ⟨job, mem_append_left _ hjob, hkey, hentry⟩
    · rintro ⟨job, hjob, hkey, hentry⟩
      rcases List.mem_append.mp hjob with hjob | hjob
      · exact ⟨job, hjob, hkey, hentry⟩
      · obtain ⟨item, -, rfl⟩ := List.mem_map.mp hjob
        cases hentry

end

/-! ### Admission -/

section Admission

variable [LruMap StateKey L]

theorem admissionSkip_cases (inner : SsdInner n L) (key : StateKey) (reused : Bool)
    (policy : SsdWritePolicy) :
    ∃ skip history, inner.admissionSkip key reused policy =
        (skip, { inner with reuseHistory := history }) ∧
      (skip = none → key ∉ inner.pendingWrites) := by
  unfold SsdInner.admissionSkip
  split
  · exact ⟨some .resident, inner.reuseHistory, rfl, nofun⟩
  split
  · exact ⟨some .pending, inner.reuseHistory, rfl, nofun⟩
  case isFalse habsent =>
    have hpending : key ∉ inner.pendingWrites := by simpa using habsent
    split
    · exact ⟨_, _, rfl, fun _ => hpending⟩
    · exact ⟨none, inner.reuseHistory, rfl, fun _ => hpending⟩

theorem admitBlocks_cases (policy : SsdWritePolicy) (reused : Bool)
    (blocks : List (StateKey × SealedBlock)) (seen : List StateKey) (inner : SsdInner n L) :
    ∃ admitted history, SsdInner.admitBlocks policy reused blocks seen inner =
        (admitted, { inner with reuseHistory := history }) ∧
      (admitted.map Prod.fst).Nodup ∧
      ∀ item ∈ admitted, item.1 ∉ seen ∧ item.1 ∉ inner.pendingWrites := by
  induction blocks generalizing seen inner with
  | nil => exact ⟨[], inner.reuseHistory, rfl, nodup_nil, nofun⟩
  | cons block blocks ih =>
    rw [SsdInner.admitBlocks]
    by_cases hseen : block.1 ∈ seen
    · rw [if_pos hseen]
      exact ih seen inner
    rw [if_neg hseen]
    obtain ⟨skip, history, hskip, hadmitted⟩ := admissionSkip_cases inner block.1 reused policy
    obtain ⟨admitted, history', hrest, hnodup, hfresh⟩ :=
      ih (block.1 :: seen) { inner with reuseHistory := history }
    have hfresh' : ∀ item ∈ admitted, item.1 ∉ seen ∧ item.1 ∉ inner.pendingWrites := by
      intro item hitem
      exact ⟨fun hmem => (hfresh item hitem).1 (mem_cons_of_mem _ hmem), (hfresh item hitem).2⟩
    rw [hskip]
    cases skip with
    | some reason => exact ⟨admitted, history', hrest, hnodup, hfresh'⟩
    | none =>
      refine ⟨block :: admitted, history', by simp only [hrest], ?_, ?_⟩
      · rw [map_cons, nodup_cons, mem_map]
        refine ⟨?_, hnodup⟩
        rintro ⟨item, hitem, heq⟩
        exact (hfresh item hitem).1 (heq ▸ mem_cons_self)
      · intro item hitem
        rcases List.mem_cons.mp hitem with rfl | hitem
        · exact ⟨hseen, hadmitted rfl⟩
        · exact hfresh' item hitem

theorem mem_foldl_insert (items : List (StateKey × SealedBlock)) (pending : ExtTreeSet StateKey)
    (key : StateKey) :
    key ∈ items.foldl (fun pending item => pending.insert item.1) pending ↔
      key ∈ pending ∨ key ∈ items.map Prod.fst := by
  induction items generalizing pending with
  | nil => simp
  | cons item items ih =>
    rw [foldl_cons, ih, ExtTreeSet.mem_insert, Std.compare_eq_iff_eq, map_cons, mem_cons]
    tauto

theorem ingestBatch_cases (inner : SsdInner n L) (policy : SsdWritePolicy)
    (blocks : List (StateKey × SealedBlock)) (reused permit : Bool) :
    ∃ sent history pending, inner.ingestBatch policy blocks reused permit =
        (sent, ⟨inner.ring, pending, history⟩) ∧
      (sent.map Prod.fst).Nodup ∧ (∀ item ∈ sent, item.1 ∉ inner.pendingWrites) ∧
      ∀ key, key ∈ pending ↔ key ∈ inner.pendingWrites ∨ key ∈ sent.map Prod.fst := by
  unfold SsdInner.ingestBatch
  split
  · exact ⟨[], inner.reuseHistory, inner.pendingWrites, rfl, nodup_nil, nofun, by simp⟩
  obtain ⟨admitted, history, hresult, hnodup, hfresh⟩ := admitBlocks_cases policy reused blocks [] inner
  rw [hresult]
  dsimp only
  split
  · exact ⟨admitted, history, _, rfl, hnodup, fun item hitem => (hfresh item hitem).2,
      mem_foldl_insert admitted inner.pendingWrites⟩
  · exact ⟨[], history, inner.pendingWrites, rfl, nodup_nil, nofun, by simp⟩

end Admission

end SsdSystem

end OrbitKV
