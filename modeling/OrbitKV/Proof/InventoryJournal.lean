import OrbitKV.Lib.Machine
import OrbitKV.Proof.InventoryHistory

/-!
# The journal of an inventory

A read is cut to a batch; a record larger than a batch fails every read that reaches it.
-/

namespace OrbitKV

open Std Inventory

variable {after through : Nat}

inductive InventoryCall where
  | change (key : StateKey) (medium : ReplicaMedium) (metadata : Option ReplicaMetadata)
  | scopedPage (after : Option Residence) (scope : InventoryScope)
  | changes (after through : Nat)
  | coalescedChangesScoped (after through : Nat) (scope : InventoryScope)

/-- An inventory and two records of its past that are not part of the program: all records it has
written, and the residents it had at the sequences `0`, `1`, … up to the present one. -/
structure Recorded where
  inventory : Inventory
  written : List InventoryRecord
  past : List RecordMap

def Recorded.next (s : Recorded) : InventoryCall → Option Recorded
  | .change key medium metadata =>
    match s.inventory.change key medium metadata with
    | .error _ => none
    | .ok inventory => some
        { inventory := inventory
          written := s.written ++
            if inventory.sequence = s.inventory.sequence then []
            else [s.inventory.nextRecord key (s.inventory.residentMetadata (key, medium)) metadata]
          past :=
            if inventory.sequence = s.inventory.sequence then s.past
            else s.past ++ [inventory.residents] }
  | .scopedPage after scope => some { s with inventory := (s.inventory.scopedPage after scope).2 }
  | .changes after through => some { s with inventory := (s.inventory.changes after through).2 }
  | .coalescedChangesScoped after through scope =>
    some { s with inventory := (s.inventory.coalescedChangesScoped after through scope).2 }

def Recorded.new (byteLimit : Nat) : Recorded :=
  ⟨.new byteLimit, [], [∅]⟩

def inventoryMachine (byteLimit : Nat) : Machine Recorded InventoryCall :=
  .ofNext (· = .new byteLimit) Recorded.next

/-! ### Accounting -/

variable (scope : InventoryScope) (residents : RecordMap) (record : InventoryRecord)
  (records : List InventoryRecord)

def journalSize : Nat :=
  (records.map (·.estimatedSize)).sum

@[simp]
theorem journalSize_nil : journalSize [] = 0 :=
  rfl

@[simp]
theorem journalSize_cons :
    journalSize (record :: records) = record.estimatedSize + journalSize records :=
  rfl

@[simp]
theorem journalSize_append (first second : List InventoryRecord) :
    journalSize (first ++ second) = journalSize first + journalSize second := by
  simp [journalSize]

structure Inventory.Accounted (inventory : Inventory) (byteLimit : Nat) : Prop where
  limit : inventory.byteLimit = byteLimit
  bytes : inventory.journalBytes = journalSize inventory.journal
  bounded : inventory.journalBytes ≤ byteLimit

theorem trimJournal_accounted (byteLimit : Nat) (journal : List InventoryRecord) :
    (trimJournal byteLimit journal (journalSize journal)).2 =
        journalSize (trimJournal byteLimit journal (journalSize journal)).1 ∧
      (trimJournal byteLimit journal (journalSize journal)).2 ≤ byteLimit := by
  induction journal with
  | nil => simp [trimJournal]
  | cons record rest ih =>
    unfold trimJournal
    split
    next =>
      rw [journalSize_cons, Nat.add_sub_cancel_left]
      exact ih
    next hfits => exact ⟨rfl, Nat.le_of_not_lt hfits⟩

variable {byteLimit : Nat} {inventory : Inventory} {log : List InventoryRecord} {past : List RecordMap}

theorem Inventory.Accounted.append
    (haccounted : inventory.Accounted byteLimit) (identity : Residence) (record : InventoryRecord) :
    (inventory.append identity record).Accounted byteLimit := by
  have hbytes : inventory.journalBytes + record.estimatedSize =
      journalSize (inventory.journal ++ [record]) := by
    rw [haccounted.bytes, journalSize_append]
    rfl
  obtain ⟨hcounter, hbounded⟩ := trimJournal_accounted byteLimit (inventory.journal ++ [record])
  constructor
  · exact haccounted.limit
  · rw [Inventory.append, haccounted.limit, hbytes]
    exact hcounter
  · rw [Inventory.append, haccounted.limit, hbytes]
    exact hbounded

theorem Inventory.Accounted.of_read {inventory inventory' : Inventory}
    (haccounted : inventory.Accounted byteLimit) (hlimit : inventory'.byteLimit = inventory.byteLimit)
    (hbytes : inventory'.journalBytes = inventory.journalBytes)
    (hjournal : inventory'.journal = inventory.journal) : inventory'.Accounted byteLimit where
  limit := hlimit.trans haccounted.limit
  bytes := by rw [hbytes, hjournal, haccounted.bytes]
  bounded := by
    rw [hbytes]
    exact haccounted.bounded

theorem Inventory.changes_snd (inventory : Inventory) (after through : Nat) :
    (inventory.changes after through).2 =
      { inventory with historyGaps := (inventory.changes after through).2.historyGaps } := by
  unfold changes
  split
  · rfl
  split
  · rfl
  split <;> rfl

theorem Inventory.scopedPage_snd (inventory : Inventory) (after : Option Residence)
    (scope : InventoryScope) :
    ∃ input output, (inventory.scopedPage after scope).2 =
      { inventory with scopeFilterInputRecords := input, scopeFilterOutputRecords := output } := by
  unfold scopedPage
  split
  · exact ⟨_, _, rfl⟩
  · exact ⟨_, _, rfl⟩

theorem Inventory.coalescedChangesScoped_snd (inventory : Inventory) (after through : Nat)
    (scope : InventoryScope) :
    ∃ gaps input output, (inventory.coalescedChangesScoped after through scope).2 =
      { inventory with
        historyGaps := gaps
        scopeFilterInputRecords := input
        scopeFilterOutputRecords := output } := by
  have hchanges := inventory.changes_snd after through
  unfold coalescedChangesScoped
  split
  · next hresult =>
    rw [hresult] at hchanges
    exact ⟨_, _, _, hchanges⟩
  next hresult =>
  rw [hresult] at hchanges
  dsimp only at hchanges
  split
  · exact ⟨_, _, _, hchanges⟩
  · rw [hchanges]
    exact ⟨_, _, _, rfl⟩

structure Recorded.Kept (byteLimit : Nat) (s : Recorded) : Prop where
  tracks : Tracks s.written s.inventory s.past
  accounted : s.inventory.Accounted byteLimit

theorem Recorded.Kept.next {s s' : Recorded} (hs : s.Kept byteLimit)
    {call : InventoryCall} (hnext : s.next call = some s') : s'.Kept byteLimit := by
  cases call with
  | change key medium metadata =>
    rw [Recorded.next] at hnext
    split at hnext
    · cases hnext
    next inventory hchange =>
    cases hnext
    refine ⟨hs.tracks.change hchange, ?_⟩
    obtain rfl | ⟨-, -, rfl⟩ := change_ok hchange
    · exact hs.accounted
    · exact hs.accounted.append _ _
  | scopedPage after scope =>
    cases hnext
    obtain ⟨input, output, hread⟩ := s.inventory.scopedPage_snd after scope
    refine ⟨hs.tracks.of_scopedPage after scope, ?_⟩
    rw [hread]
    exact hs.accounted.of_read rfl rfl rfl
  | changes after through =>
    cases hnext
    rw [s.inventory.changes_snd after through]
    exact ⟨hs.tracks.of_read rfl rfl rfl, hs.accounted.of_read rfl rfl rfl⟩
  | coalescedChangesScoped after through scope =>
    cases hnext
    obtain ⟨gaps, input, output, hread⟩ :=
      s.inventory.coalescedChangesScoped_snd after through scope
    refine ⟨hs.tracks.of_coalescedChangesScoped after through scope, ?_⟩
    rw [hread]
    exact hs.accounted.of_read rfl rfl rfl

theorem kept_of_reachable {s : Recorded}
    (hreach : (inventoryMachine byteLimit).Reachable s) : s.Kept byteLimit := by
  refine hreach.invariant (I := Recorded.Kept byteLimit) ?_ ?_
  · rintro s rfl
    exact ⟨tracks_new byteLimit, ⟨rfl, rfl, Nat.zero_le _⟩⟩
  · exact fun s call s' hs hnext => hs.next hnext

/-! ### Reads of the journal -/

def Batch : Prop :=
  records.length ≤ inventoryBatchRecords ∧ journalSize records ≤ inventoryBatchBytes

def InventoryRecord.oversized : Bool :=
  inventoryBatchBytes < record.estimatedSize

/-- A read of `source` takes its longest prefix that is a batch, and fails when the record behind
that prefix alone is larger than a batch. -/
def BatchRead (source : List InventoryRecord)
    (result : Except InventoryReadError (List InventoryRecord)) : Prop :=
  ∃ taken rest, source = taken ++ rest ∧ Batch taken ∧
    (∀ next, rest.head? = some next → ¬Batch (taken ++ [next])) ∧
    result = if rest.head?.any (·.oversized) then .error .recordTooLarge else .ok taken

theorem batch_concat {records : List InventoryRecord} {record : InventoryRecord} :
    Batch (records ++ [record]) ↔ records.length < inventoryBatchRecords ∧
      journalSize records + record.estimatedSize ≤ inventoryBatchBytes := by
  simp [Batch]

theorem batchRead_boundedRecords (source : List InventoryRecord) :
    BatchRead source (boundedRecords source [] 0) := by
  -- the accumulators of the loop are the records taken so far and their size
  suffices hloop : ∀ result : List InventoryRecord, Batch result →
      BatchRead (result ++ source) (boundedRecords source result (journalSize result)) from
    hloop [] ⟨Nat.zero_le _, Nat.zero_le _⟩
  induction source with
  | nil =>
    intro result hresult
    exact ⟨result, [], rfl, hresult, by simp, by simp [boundedRecords]⟩
  | cons record source ih =>
    intro result hresult
    by_cases hbatch : Batch (result ++ [record])
    · have hstep : boundedRecords (record :: source) result (journalSize result) =
          boundedRecords source (result ++ [record]) (journalSize (result ++ [record])) := by
        obtain ⟨hlength, hbytes⟩ := batch_concat.mp hbatch
        rw [boundedRecords, if_neg (by omega), if_neg (by omega), journalSize_append]
        rfl
      rw [hstep, List.append_cons]
      exact ih _ hbatch
    · refine ⟨result, record :: source, rfl, hresult, ?_, ?_⟩
      · rintro next hnext
        obtain rfl : record = next := by simpa using hnext
        exact hbatch
      · rw [batch_concat] at hbatch
        have hlength := hresult.1
        unfold boundedRecords
        dsimp only
        split
        next hlarge => simp [InventoryRecord.oversized, hlarge]
        next hfits =>
          rw [if_pos (by omega)]
          simp [InventoryRecord.oversized, hfits]

def Inventory.Retains (inventory : Inventory) (number : Nat) : Prop :=
  ∃ record ∈ inventory.journal, record.sequence = number

theorem Tracks.journal_numbered (htracks : Tracks log inventory past) {i : Nat}
    {record : InventoryRecord}
    (hrecord : inventory.journal[i]? = some record) :
    record.sequence + inventory.journal.length = inventory.sequence + 1 + i := by
  obtain ⟨older, holder⟩ := htracks.journal
  obtain ⟨hi, rfl⟩ := List.getElem?_eq_some_iff.mp hrecord
  have hlength : older.length + inventory.journal.length = log.length := by
    rw [← holder, List.length_append]
  have hnumber := htracks.numbered (older.length + i) (by omega)
  have helement : log[older.length + i] = inventory.journal[i] := by
    simp [← holder]
  rw [helement] at hnumber
  change inventory.journal[i].sequence = _ at hnumber
  rw [htracks.sequence]
  omega

theorem Tracks.retains_iff (htracks : Tracks log inventory past) {number : Nat} :
    inventory.Retains number ↔
      inventory.sequence < number + inventory.journal.length ∧ number ≤ inventory.sequence := by
  constructor
  · rintro ⟨record, hmem, rfl⟩
    obtain ⟨i, hi, rfl⟩ := List.mem_iff_getElem.mp hmem
    have hnumber := htracks.journal_numbered (List.getElem?_eq_getElem hi)
    omega
  · rintro ⟨hlow, hhigh⟩
    have hlength := htracks.journal.length_le
    rw [← htracks.sequence] at hlength
    have hi : number + inventory.journal.length - inventory.sequence - 1 <
        inventory.journal.length := by omega
    refine ⟨_, List.getElem_mem hi, ?_⟩
    have hnumber := htracks.journal_numbered (List.getElem?_eq_getElem hi)
    omega

def Inventory.Gap (inventory : Inventory) (after through : Nat) : Prop :=
  through < after ∨ inventory.sequence < through ∨
    after < inventory.sequence ∧ ¬inventory.Retains (after + 1)

theorem Tracks.hasGap_iff (htracks : Tracks log inventory past) :
    inventory.hasGap after through = true ↔ inventory.Gap after through := by
  have hfront : after < inventory.sequence →
      ((inventory.journal.head?.all fun record => after + 1 < record.sequence) = true ↔
        ¬inventory.Retains (after + 1)) := by
    intro hafter
    rw [htracks.retains_iff]
    cases hjournal : inventory.journal with
    | nil => simp
    | cons front rest =>
      have hfirst : inventory.journal[0]? = some front := by simp [hjournal]
      have hnumber := htracks.journal_numbered hfirst
      rw [hjournal] at hnumber
      simp only [List.head?_cons, Option.all_some, decide_eq_true_eq, not_and_or]
      omega
  simp only [hasGap, Gap, Bool.or_eq_true, Bool.and_eq_true, decide_eq_true_eq, or_assoc]
  by_cases hthrough : through < after
  · simp [hthrough]
  by_cases hsequence : inventory.sequence < through
  · simp [hsequence]
  simp only [hthrough, hsequence, false_or]
  constructor
  · rintro ⟨hne, hall⟩
    have hafter : after < inventory.sequence := by omega
    exact ⟨hafter, (hfront hafter).mp hall⟩
  · rintro ⟨hafter, hretains⟩
    exact ⟨by omega, (hfront hafter).mpr hretains⟩

theorem Tracks.changes_of_gap (htracks : Tracks log inventory past)
    (hgap : inventory.Gap after through) :
    (inventory.changes after through).1 = .error .historyGap := by
  rw [changes, if_pos (htracks.hasGap_iff.mpr hgap)]

theorem Tracks.changes_of_not_gap (htracks : Tracks log inventory past)
    (hgap : ¬inventory.Gap after through) :
    BatchRead (ChangeKind.window log after through) (inventory.changes after through).1 := by
  have hgap' := mt htracks.hasGap_iff.mp hgap
  rw [changes, if_neg hgap']
  by_cases hempty : after = through
  · rw [if_pos hempty]
    refine ⟨[], [], ?_, ⟨Nat.zero_le _, Nat.zero_le _⟩, by simp, by simp⟩
    simp [ChangeKind.window, hempty]
  · simp only [Gap, not_or, not_and_or, not_not, Nat.not_lt] at hgap
    obtain ⟨hle, hthrough, hretains⟩ := hgap
    have hretained : inventory.Retains (after + 1) := hretains.resolve_left (by omega)
    obtain ⟨hlow, -⟩ := htracks.retains_iff.mp hretained
    rw [if_neg hempty]
    cases hjournal : inventory.journal.head? with
    | none =>
      obtain ⟨record, hmem, -⟩ := hretained
      rw [List.head?_eq_none_iff.mp hjournal] at hmem
      cases hmem
    | some front =>
      have hfirst : inventory.journal[0]? = some front := by
        rw [← List.head?_eq_getElem?, hjournal]
      have hnumber := htracks.journal_numbered hfirst
      have hfrom : front.sequence ≤ after + 1 := by omega
      have hlt : after < through := by omega
      dsimp only
      rw [htracks.journal_slice hjournal hfrom hlt]
      exact batchRead_boundedRecords _

/-! ### Deltas -/

def inScope : RecordMap :=
  residents.filter fun residence _ => scope.contains residence.1.ns

theorem getElem?_inScope (residence : Residence) :
    (inScope scope residents)[residence]? =
      if scope.contains residence.1.ns then residents[residence]? else none := by
  rw [inScope, ExtTreeMap.getElem?_filter']
  cases residents[residence]? <;> cases scope.contains residence.1.ns <;> rfl

def replayRecord : RecordMap :=
  if record.present then residents.insert record.residence record
  else residents.erase record.residence

theorem getElem?_replayRecord (residence : Residence) :
    (replayRecord residents record)[residence]? =
      if record.residence = residence then residency.outcome record
      else residents[residence]? := by
  unfold replayRecord ChangeKind.outcome residency
  by_cases heq : record.residence = residence
  · subst heq
    split <;> simp_all
  · split <;> simp [ExtTreeMap.getElem?_insert, ExtTreeMap.getElem?_erase, heq]

theorem getElem?_foldl_replayRecord (residents : RecordMap) (residence : Residence) :
    (records.foldl replayRecord residents)[residence]? =
      (residency.lastChange records residence).elim residents[residence]? residency.outcome := by
  induction records using List.reverseRecOn with
  | nil => simp [ChangeKind.lastChange]
  | append_singleton records record ih =>
    rw [List.foldl_concat, getElem?_replayRecord, ih, ChangeKind.lastChange_append]
    by_cases heq : record.residence = residence
    · simp [ChangeKind.lastChange, residency, heq]
    · simp [ChangeKind.lastChange, residency, heq]

theorem DeltaRead.foldl_replayRecord (htracks : Tracks log inventory past) {scope : InventoryScope}
    {records : List InventoryRecord}
    (hdelta : DeltaRead log scope after through records) {before behind : RecordMap}
    (hbefore : past[after]? = some before) (hbehind : past[through]? = some behind) :
    records.foldl replayRecord (inScope scope before) = inScope scope behind := by
  apply ExtTreeMap.ext_getElem?
  intro residence
  rw [getElem?_foldl_replayRecord, hdelta.read, getElem?_inScope, getElem?_inScope,
    htracks.past_state _ _ hbefore, htracks.past_state _ _ hbehind,
    ChangeKind.stateAt_eq_window log hdelta.after_le]
  split
  · rfl
  · rfl

/-- **The journal.** For every history of changes and every byte limit: the journal holds the last
changes, in order, their size is the byte counter and within the limit; a read returns a gap exactly
when its first change is gone or it asks for no interval of the history, and else a batch of the
changes it asks for, unless it meets a record larger than a batch; a delta takes the in-scope residents
of its start to those of its end. -/
theorem inventory_journal {byteLimit : Nat} {s : Recorded}
    (hreach : (inventoryMachine byteLimit).Reachable s) :
    (s.inventory.journal <:+ s.written ∧ s.written.length = s.inventory.sequence ∧
      (∀ i, (hi : i < s.written.length) → s.written[i].sequence = i + 1) ∧
      s.inventory.journalBytes = journalSize s.inventory.journal ∧
      s.inventory.journalBytes ≤ byteLimit) ∧
    (∀ after through,
      ((s.inventory.changes after through).1 = .error .historyGap ↔ s.inventory.Gap after through) ∧
      (¬s.inventory.Gap after through →
        BatchRead ((s.written.take through).drop after) (s.inventory.changes after through).1)) ∧
    (∀ after through scope delta,
      (s.inventory.coalescedChangesScoped after through scope).1 = .ok delta →
      after ≤ delta.through ∧ delta.through ≤ through ∧
        ∃ before behind, s.past[after]? = some before ∧ s.past[delta.through]? = some behind ∧
          delta.records.foldl replayRecord (inScope scope before) = inScope scope behind) := by
  obtain ⟨htracks, haccounted⟩ := kept_of_reachable hreach
  refine ⟨⟨htracks.journal, htracks.sequence.symm, htracks.numbered, haccounted.bytes,
    haccounted.bounded⟩, fun after through => ⟨⟨fun hresult => ?_, htracks.changes_of_gap⟩,
    htracks.changes_of_not_gap⟩, fun after through scope delta hdelta => ?_⟩
  · by_contra hgap
    obtain ⟨taken, rest, -, -, -, hread⟩ := htracks.changes_of_not_gap hgap
    rw [hresult] at hread
    split at hread <;> cases hread
  · obtain ⟨hthrough, hread⟩ := htracks.coalescedChangesScoped (Prod.ext hdelta rfl)
    have hlength := htracks.past_length
    have hafter := hread.after_le
    have hend := hread.through_le
    obtain ⟨before, hbefore⟩ : ∃ before, s.past[after]? = some before :=
      ⟨_, List.getElem?_eq_getElem (by omega)⟩
    obtain ⟨behind, hbehind⟩ : ∃ behind, s.past[delta.through]? = some behind :=
      ⟨_, List.getElem?_eq_getElem (by omega)⟩
    exact ⟨hafter, hthrough, before, behind, hbefore, hbehind,
      hread.foldl_replayRecord htracks hbefore hbehind⟩

def dramChange (hash : UInt8) (present : Bool) : InventoryCall :=
  .change ⟨"ns", [hash]⟩ .dram (if present then some ⟨.dram, .raw, none⟩ else none)

/-- A key goes and comes back: its first change is trimmed and its last one is read. -/
theorem inventory_journal_resident :
    ∃ s, (inventoryMachine 300).Reachable s ∧
      s.inventory.journal.map (·.sequence) = [2, 3, 4] ∧
      (s.inventory.changes 0 4).1 = .error .historyGap ∧
      ∃ delta, (s.inventory.coalescedChangesScoped 1 4 .allNamespaces).1 = .ok delta ∧
        delta.records.map (·.sequence) = [4, 3] ∧
        ∃ before behind, s.past[1]? = some before ∧ s.past[delta.through]? = some behind ∧
          delta.records.foldl replayRecord (inScope .allNamespaces before) =
            inScope .allNamespaces behind := by
  have hrun : ([dramChange 7 true, dramChange 7 false, dramChange 8 true, dramChange 7 true].foldlM
      Recorded.next (.new 300)).any (fun s => decide (s.inventory.hasGap 0 4 ∧
        s.inventory.journal.map (·.sequence) = [2, 3, 4] ∧
        (s.inventory.coalescedChangesScoped 1 4 .allNamespaces).1.toOption.map
          (·.records.map (·.sequence)) = some [4, 3])) = true := by
    decide +kernel
  obtain ⟨s, hreach, hgap, hjournal, hread⟩ := (inventoryMachine 300).exists_reachable rfl rfl hrun
  obtain ⟨-, hchanges, hdeltas⟩ := inventory_journal hreach
  refine ⟨s, hreach, hjournal, ?_, ?_⟩
  · exact (hchanges 0 4).1.mpr ((kept_of_reachable hreach).tracks.hasGap_iff.mp hgap)
  · cases hresult : (s.inventory.coalescedChangesScoped 1 4 .allNamespaces).1 with
    | error error => rw [hresult] at hread; cases hread
    | ok delta =>
      rw [hresult] at hread
      exact ⟨delta, rfl, Option.some.inj hread, (hdeltas 1 4 _ delta hresult).2.2⟩

/-- Two keys become resident, the second with a hash as long as a batch: a read of both changes
fails, although the journal retains both and the first fits a batch. -/
theorem exists_changes_oversized {hash : List UInt8} (hlong : hash.length = inventoryBatchBytes) :
    ∃ s, (inventoryMachine (2 ^ 20)).Reachable s ∧ s.inventory.sequence = 2 ∧
      s.inventory.Retains 1 ∧ (s.inventory.changes 0 2).1 = .error .recordTooLarge := by
  have hhash : [] ≠ hash := by
    rintro rfl
    cases hlong
  have hbytes : hash.length = 524288 := hlong
  have hns : "ns".utf8ByteSize = 2 := by decide
  obtain ⟨s, hs, hsequence, hjournal⟩ :
      ∃ s, [.change ⟨"ns", []⟩ .dram (some ⟨.dram, .raw, none⟩),
          .change ⟨"ns", hash⟩ .dram (some ⟨.dram, .raw, none⟩)].foldlM
            Recorded.next (.new (2 ^ 20)) = some s ∧
        s.inventory.sequence = 2 ∧ s.inventory.journal =
          [⟨⟨"ns", []⟩, 1, true, some ⟨.dram, .raw, none⟩⟩,
            ⟨⟨"ns", hash⟩, 2, true, some ⟨.dram, .raw, none⟩⟩] := by
    simp [Recorded.next, Recorded.new, new, change,
      append, nextRecord, residentMetadata, ReplicaMedium.isStored,
      trimJournal, InventoryRecord.estimatedSize, inventoryRecordSize, u64Bound,
      hhash, hbytes, hns]
  refine ⟨s, (Machine.Reachable.of_init rfl).foldlM hs, hsequence, ?_, ?_⟩
  · exact ⟨_, by rw [hjournal]; exact List.mem_cons_self, rfl⟩
  · simp [changes, hasGap, hsequence, hjournal, boundedRecords,
      InventoryRecord.estimatedSize, inventoryBatchBytes, inventoryBatchRecords,
      inventoryRecordSize, hbytes, hns]

theorem changes_record_too_large :
    ∃ s, (inventoryMachine (2 ^ 20)).Reachable s ∧ s.inventory.sequence = 2 ∧
      s.inventory.Retains 1 ∧ (s.inventory.changes 0 2).1 = .error .recordTooLarge :=
  exists_changes_oversized (List.length_replicate (a := 0))

end OrbitKV
