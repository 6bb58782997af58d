import OrbitKV.Cluster.Stream
import OrbitKV.Proof.InventoryJournal

/-!
# Framing a delta

Each iteration finds the inventory of its own moment: the loops take the inventories from a sequence
and count them.
-/

namespace OrbitKV

open Std ChangeKind List

section Loops

variable (frameLimit : Nat) (wire : Wire) (scope : InventoryScope) (inventoryAt : Nat → Inventory)

def boundedDelta (after : Nat) :
    (fuel limit now : Nat) → Option (Except InventoryReadError InventoryDelta × Nat)
  | 0, _, _ => none
  | fuel + 1, limit, now =>
    match (boundedDeltaAttempt frameLimit wire (inventoryAt now) after limit scope).1 with
    | .retry limit => boundedDelta after fuel limit (now + 1)
    | .done delta => some (.ok delta, now + 1)
    | .failed error => some (.error error, now + 1)

inductive ReplayOutcome where
  | replayed (after : Nat)
  | failed (error : InventoryReadError)
  | unsent
  deriving DecidableEq, Repr

def replaySnapshot (stop : Nat) : (fuel after now : Nat) → Option ReplayOutcome
  | 0, _, _ => none
  | fuel + 1, after, now =>
    if after < stop then
      match boundedDelta frameLimit wire scope inventoryAt after fuel stop now with
      | none => none
      | some (.error error, _) => some (.failed error)
      | some (.ok delta, now) =>
        if wire.messageLen (.delta after delta.through delta.records) ≤ messageBytes then
          replaySnapshot stop fuel delta.through now
        else
          some .unsent
    else
      some (.replayed after)

end Loops

/-! ### What an iteration finds -/

def Unframed (frameLimit : Nat) (wire : Wire) (scope : InventoryScope) (inventory : Inventory)
    (after : Nat) : Prop :=
  ∃ record ∈ inventory.journal, record.sequence = after + 1 ∧
    (record.oversized = true ∨ frameLimit <
      wire.encodedLen
        (.delta after (after + 1) (if scope.contains record.key.ns then [record] else [])))

def DeltaAttempt.Progress (frameLimit : Nat) (wire : Wire) (scope : InventoryScope)
    (inventory : Inventory) (after limit : Nat) : DeltaAttempt → Prop
  | .retry limit' => after < limit' ∧ limit' < limit
  | .done delta => after < delta.through ∧ delta.through ≤ limit ∧
      wire.encodedLen (.delta after delta.through delta.records) ≤ frameLimit
  | .failed .historyGap => True
  | .failed .recordTooLarge => Unframed frameLimit wire scope inventory after
  | .failed .invalidRecord => False

theorem coalesce_isOk (scope : InventoryScope) {input : List InventoryRecord}
    (hmetadata : ∀ record ∈ input, record.metadata.isSome) (records : RecordMap) :
    ∃ records', coalesce scope input records = .ok records' := by
  induction input generalizing records with
  | nil => exact ⟨records, rfl⟩
  | cons record input ih =>
    obtain ⟨metadata, hsome⟩ := Option.isSome_iff_exists.mp (hmetadata record mem_cons_self)
    rw [coalesce, hsome]
    exact ih (fun other hother => hmetadata other (mem_cons_of_mem _ hother)) _

theorem Inventory.coalesced_of_changes_error {inventory : Inventory} {after limit : Nat}
    {error : InventoryReadError} (hchanges : (inventory.changes after limit).1 = .error error)
    (scope : InventoryScope) :
    (inventory.coalescedChangesScoped after limit scope).1 = .error error := by
  have hpair : inventory.changes after limit =
      (.error error, (inventory.changes after limit).2) := Prod.ext hchanges rfl
  rw [Inventory.coalescedChangesScoped, hpair]

section Tracked

variable {log : List InventoryRecord} {inventory : Inventory} {past : List RecordMap}
  {after limit : Nat}

theorem Tracks.exists_window_cons (htracks : Tracks log inventory past) (hlt : after < limit)
    (hgap : ¬inventory.Gap after limit) :
    ∃ record rest, window log after limit = record :: rest ∧
      record ∈ inventory.journal ∧ record.sequence = after + 1 := by
  simp only [Inventory.Gap, not_or, not_and_or, not_not, Nat.not_lt] at hgap
  obtain ⟨-, hlimit, hretains⟩ := hgap
  obtain ⟨record, hmem, hsequence⟩ := hretains.resolve_left (by omega)
  rw [htracks.sequence] at hlimit
  have hlog : record = log[after] := by
    obtain ⟨i, hi, rfl⟩ := List.mem_iff_getElem.mp (htracks.journal.subset hmem)
    have hnumber := htracks.numbered i hi
    change log[i].sequence = i + 1 at hnumber
    obtain rfl : i = after := by omega
    rfl
  refine ⟨record, window log (after + 1) limit, ?_, hmem, hsequence⟩
  rw [window, window, hlog, drop_eq_getElem_cons (by rw [length_take]; omega), getElem_take]

theorem Tracks.exists_window_single (htracks : Tracks log inventory past) (hlt : after < limit)
    (hgap : ¬inventory.Gap after limit) :
    ∃ record, window log after (after + 1) = [record] ∧
      record ∈ inventory.journal ∧ record.sequence = after + 1 := by
  have hfirst : ¬inventory.Gap after (after + 1) := by
    simp only [Inventory.Gap, not_or, Nat.not_lt] at hgap ⊢
    exact ⟨Nat.le_succ after, by omega, hgap.2.2⟩
  obtain ⟨record, rest, hwindow, hmem, hsequence⟩ :=
    htracks.exists_window_cons (Nat.lt_succ_self after) hfirst
  have hlength : (window log after (after + 1)).length ≤ 1 := by
    rw [window, length_drop, length_take]
    omega
  rw [hwindow, length_cons] at hlength
  obtain rfl : rest = [] := eq_nil_of_length_eq_zero (by omega)
  exact ⟨record, hwindow, hmem, hsequence⟩

theorem Tracks.window_metadata (htracks : Tracks log inventory past) {taken rest : List InventoryRecord}
    (hwindow : window log after limit = taken ++ rest) :
    ∀ record ∈ taken, record.metadata.isSome := by
  intro record hmem
  have hin : record ∈ window log after limit := by
    rw [hwindow]
    exact mem_append_left _ hmem
  exact htracks.metadata record (mem_of_mem_take (mem_of_mem_drop hin))

theorem Tracks.coalesced_cases (htracks : Tracks log inventory past) (hlt : after < limit)
    (scope : InventoryScope) :
    (inventory.coalescedChangesScoped after limit scope).1 = .error .historyGap ∨
    ((inventory.coalescedChangesScoped after limit scope).1 = .error .recordTooLarge ∧
      (limit = after + 1 → ∃ record ∈ inventory.journal, record.sequence = after + 1 ∧
        record.oversized = true)) ∨
    ∃ delta, (inventory.coalescedChangesScoped after limit scope).1 = .ok delta ∧
      ¬inventory.Gap after limit ∧ after < delta.through ∧
        delta.inputRecords = delta.through - after := by
  by_cases hgap : inventory.Gap after limit
  · exact .inl (Inventory.coalesced_of_changes_error (htracks.changes_of_gap hgap) scope)
  right
  obtain ⟨first, rest, hwindow, hmem, hsequence⟩ := htracks.exists_window_cons hlt hgap
  obtain ⟨taken, behind, hsplit, hbatch, hmaximal, hread⟩ := htracks.changes_of_not_gap hgap
  by_cases hlarge : behind.head?.any (·.oversized) = true
  · left
    rw [if_pos hlarge] at hread
    refine ⟨Inventory.coalesced_of_changes_error hread scope, ?_⟩
    rintro rfl
    -- the interval is one change long, so that change is the one the read stopped at
    have hlength : (window log after (after + 1)).length ≤ 1 := by
      rw [window, length_drop, length_take]
      omega
    rw [hsplit, length_append] at hlength
    cases behind with
    | nil => simp at hlarge
    | cons next behind =>
      obtain rfl : taken = [] := by
        rw [length_cons] at hlength
        exact eq_nil_of_length_eq_zero (by omega)
      obtain ⟨rfl, -⟩ := List.cons.inj (hsplit.symm.trans hwindow)
      exact ⟨next, hmem, hsequence, by simpa using hlarge⟩
  · right
    rw [if_neg hlarge] at hread
    have hnonempty : taken ≠ [] := by
      rintro rfl
      rw [nil_append] at hsplit
      obtain rfl := hsplit.symm.trans hwindow
      have hover := hmaximal first rfl
      simp [Batch, inventoryBatchRecords, InventoryRecord.oversized] at hover hlarge
      omega
    have hchanges : inventory.changes after limit = (.ok taken, (inventory.changes after limit).2) :=
      Prod.ext hread rfl
    obtain ⟨hle, hlog, hinput, -⟩ := htracks.changes_ok hchanges
    obtain ⟨records, hrecords⟩ := coalesce_isOk scope (htracks.window_metadata hsplit) ∅
    have hlast := htracks.sequence_last hlog hinput
    have hpositive := List.length_pos_iff.mpr hnonempty
    refine ⟨_, by rw [Inventory.coalescedChangesScoped, hchanges]; simp only [hrecords]; rfl, hgap,
      ?_, ?_⟩
    · dsimp only
      omega
    · dsimp only
      omega

theorem DeltaRead.records_single {scope : InventoryScope} {records : List InventoryRecord}
    {record : InventoryRecord} (hdelta : DeltaRead log scope after (after + 1) records)
    (hwindow : window log after (after + 1) = [record]) :
    records = if scope.contains record.key.ns then [record] else [] := by
  have hlast : ∀ residence, residency.lastChange records residence =
      if scope.contains residence.1.ns ∧ record.residence = residence then some record else none := by
    intro residence
    rw [hdelta.read, hwindow]
    by_cases hsame : record.residence = residence
    · simp [lastChange, residency, hsame]
    · simp [lastChange, residency, hsame]
  have hresidence : ∀ other ∈ records, other.residence = record.residence := by
    intro other hother
    have hsome : residency.lastChange records other.residence ≠ none := by
      rw [lastChange, ne_eq, find?_eq_none]
      exact fun hnone => hnone other (List.mem_reverse.mpr hother) (decide_eq_true rfl)
    rw [hlast] at hsome
    split at hsome
    next hsame => exact hsame.2.symm
    next => exact absurd rfl hsome
  cases records with
  | nil =>
    have hnone := hlast record.residence
    simp only [and_true] at hnone
    split at hnone
    next => cases hnone
    next hscope => exact (if_neg hscope).symm
  | cons head tail =>
    obtain rfl : tail = [] := by
      cases tail with
      | nil => rfl
      | cons second tail =>
        refine absurd ?_ ((List.pairwise_cons.mp hdelta.distinct).1 second mem_cons_self)
        rw [hresidence head mem_cons_self, hresidence second (by simp)]
    have hhead : residency.lastChange [head] head.residence = some head := by
      simp [lastChange, residency]
    rw [hlast] at hhead
    split at hhead
    next hscope =>
      obtain rfl := Option.some.inj hhead
      exact (if_pos hscope.1).symm
    next => cases hhead

theorem Tracks.attempt_progress (htracks : Tracks log inventory past) (hlt : after < limit)
    (frameLimit : Nat) (wire : Wire) (scope : InventoryScope) :
    (boundedDeltaAttempt frameLimit wire inventory after limit scope).1.Progress frameLimit wire
      scope inventory after limit := by
  unfold boundedDeltaAttempt
  obtain hgap | ⟨hlarge, hsingle⟩ | ⟨delta, hdelta, hgap, hafter, hinput⟩ :=
    htracks.coalesced_cases hlt scope
  · split
    · next error inventory' hresult =>
      rw [hresult] at hgap
      obtain rfl := Except.error.inj hgap
      rw [if_neg (by simp)]
      trivial
    · next hresult =>
      rw [hresult] at hgap
      cases hgap
  · split
    · next error inventory' hresult =>
      rw [hresult] at hlarge
      obtain rfl := Except.error.inj hlarge
      split
      · next hwide =>
        constructor
        · omega
        · omega
      · next hnarrow =>
        obtain ⟨record, hmem, hsequence, hover⟩ := hsingle (by simp at hnarrow; omega)
        exact ⟨record, hmem, hsequence, .inl hover⟩
    · next hresult =>
      rw [hresult] at hlarge
      cases hlarge
  · split
    · next hresult =>
      rw [hresult] at hdelta
      cases hdelta
    · next delta' inventory' hresult =>
      rw [hresult] at hdelta
      obtain rfl := Except.ok.inj hdelta
      obtain ⟨hle, hread⟩ := htracks.coalescedChangesScoped hresult
      split
      · next hfits => exact ⟨hafter, hle, hfits⟩
      next hlong =>
      split
      · next hone =>
        -- one change was read, so the frame that does not fit is the frame of that change
        have hthrough : delta'.through = after + 1 := by omega
        obtain ⟨record, hwindow, hmem, hsequence⟩ := htracks.exists_window_single hlt hgap
        rw [hthrough] at hread hlong
        rw [hread.records_single hwindow] at hlong
        exact ⟨record, hmem, hsequence, .inr (Nat.lt_of_not_le hlong)⟩
      · constructor
        · omega
        · omega

end Tracked

/-! ### The loops -/

section Progress

variable (frameLimit : Nat) (wire : Wire) (scope : InventoryScope) {inventoryAt : Nat → Inventory}

def FramedDelta (inventory : Inventory) (after limit : Nat)
    (result : Except InventoryReadError InventoryDelta) : Prop :=
  result = .error .historyGap ∨
  (∃ delta, result = .ok delta ∧ after < delta.through ∧ delta.through ≤ limit ∧
    wire.encodedLen (.delta after delta.through delta.records) ≤ frameLimit) ∨
  (result = .error .recordTooLarge ∧ Unframed frameLimit wire scope inventory after)

theorem exists_boundedDelta
    (htracks : ∀ n, ∃ log past, Tracks log (inventoryAt n) past) (after : Nat) :
    ∀ fuel limit now : Nat, after < limit → limit - after ≤ fuel →
      ∃ result last, now ≤ last ∧
        boundedDelta frameLimit wire scope inventoryAt after fuel limit now =
          some (result, last + 1) ∧
        FramedDelta frameLimit wire scope (inventoryAt last) after limit result := by
  intro fuel
  induction fuel with
  | zero => omega
  | succ fuel ih =>
    intro limit now hlt hfuel
    obtain ⟨log, past, hnow⟩ := htracks now
    have hattempt := hnow.attempt_progress hlt frameLimit wire scope
    rw [boundedDelta]
    cases hresult : (boundedDeltaAttempt frameLimit wire (inventoryAt now) after limit scope).1 with
    | retry limit' =>
      rw [hresult] at hattempt
      obtain ⟨hlow, hhigh⟩ := hattempt
      obtain ⟨result, last, hlast, hrun, hframed⟩ := ih limit' (now + 1) hlow (by omega)
      refine ⟨result, last, by omega, hrun, ?_⟩
      refine hframed.imp_right (Or.imp_left ?_)
      rintro ⟨delta, hdelta, hafter, hle, hfits⟩
      exact ⟨delta, hdelta, hafter, by omega, hfits⟩
    | done delta =>
      rw [hresult] at hattempt
      exact ⟨_, now, le_rfl, rfl, .inr (.inl ⟨delta, rfl, hattempt⟩)⟩
    | failed error =>
      rw [hresult] at hattempt
      cases error with
      | historyGap => exact ⟨_, now, le_rfl, rfl, .inl rfl⟩
      | recordTooLarge => exact ⟨_, now, le_rfl, rfl, .inr (.inr ⟨rfl, hattempt⟩)⟩
      | invalidRecord => exact hattempt.elim

/-- Each delta moves the replay forward, so as many deltas as there are changes are enough; a replay
that is not stopped ends where it was to. -/
theorem exists_replaySnapshot
    (htracks : ∀ n, ∃ log past, Tracks log (inventoryAt n) past) (stop : Nat) :
    ∀ fuel after now : Nat, after ≤ stop → stop - after < fuel →
      ∃ outcome, replaySnapshot frameLimit wire scope inventoryAt stop fuel after now = some outcome ∧
        ∀ final, outcome = .replayed final → final = stop := by
  intro fuel
  induction fuel with
  | zero => omega
  | succ fuel ih =>
    intro after now hle hfuel
    rw [replaySnapshot]
    split
    next hlt =>
      obtain ⟨result, last, -, hrun, hframed⟩ :=
        exists_boundedDelta frameLimit wire scope htracks after fuel stop now hlt (by omega)
      rw [hrun]
      cases result with
      | error error => exact ⟨_, rfl, by simp⟩
      | ok delta =>
        obtain hgap | ⟨delta', hdelta, hafter, hthrough, -⟩ | ⟨hlarge, -⟩ := hframed
        · cases hgap
        · obtain rfl := Except.ok.inj hdelta
          dsimp only
          split
          · exact ih delta.through (last + 1) hthrough (by omega)
          · exact ⟨_, rfl, by simp⟩
        · cases hlarge
    next hdone =>
      refine ⟨_, rfl, fun final hfinal => ?_⟩
      cases hfinal
      omega

/-- **Progress.** Whatever the inventory is when an iteration looks at it: `bounded_delta` returns a
gap, a delta that moves forward and fits a frame, or the error that the next change alone does not
fit; and the replay of a snapshot comes to an end. -/
theorem delta_framing_progress
    (hinventories : ∀ n, ∃ byteLimit s, (inventoryMachine byteLimit).Reachable s ∧
      s.inventory = inventoryAt n) :
    (∀ after through now fuel, after < through → through - after ≤ fuel →
      ∃ result last, now ≤ last ∧
        boundedDelta frameLimit wire scope inventoryAt after fuel through now =
          some (result, last + 1) ∧
        FramedDelta frameLimit wire scope (inventoryAt last) after through result) ∧
    (∀ start stop now fuel, start ≤ stop → stop - start < fuel →
      ∃ outcome, replaySnapshot frameLimit wire scope inventoryAt stop fuel start now = some outcome ∧
        ∀ final, outcome = .replayed final → final = stop) := by
  have htracks : ∀ n, ∃ log past, Tracks log (inventoryAt n) past := by
    intro n
    obtain ⟨byteLimit, s, hreach, hinventory⟩ := hinventories n
    rw [← hinventory]
    exact ⟨_, _, (kept_of_reachable hreach).tracks⟩
  constructor
  · exact fun after through now fuel =>
      exists_boundedDelta frameLimit wire scope htracks after fuel through now
  · exact fun start stop now fuel =>
      exists_replaySnapshot frameLimit wire scope htracks stop fuel start now

/-- A wire on which a delta is as long as it has records. -/
def countingWire : Wire where
  encodedLen
    | .delta _ _ records => records.length
    | _ => 0
  messageLen _ := 0
  transcriptDigest _ := []

/-- Four changes for frames of two records: the second iteration returns the first two. -/
theorem delta_framing_progress_resident :
    ∃ s, (inventoryMachine 4096).Reachable s ∧ ∃ delta, delta.through = 2 ∧
      boundedDelta 2 countingWire .allNamespaces (fun _ => s.inventory) 0 4 4 0 =
        some (.ok delta, 2) ∧
      FramedDelta 2 countingWire .allNamespaces s.inventory 0 4 (.ok delta) := by
  have hrun : (([1, 2, 3, 4].map (dramChange · true)).foldlM Recorded.next (.new 4096)).any
      (fun s => decide ((boundedDelta 2 countingWire .allNamespaces (fun _ => s.inventory)
        0 4 4 0).map (Prod.map (·.toOption.map (·.through)) id) = some (some 2, 2))) = true := by
    decide +kernel
  obtain ⟨s, hreach, hlooked⟩ := (inventoryMachine 4096).exists_reachable rfl rfl hrun
  obtain ⟨result, last, -, hdelta, hframed⟩ :=
    (delta_framing_progress 2 countingWire .allNamespaces fun _ => ⟨4096, s, hreach, rfl⟩).1
      0 4 0 4 (by decide) (by decide)
  rw [hdelta] at hlooked
  cases result with
  | error error => cases hlooked
  | ok delta =>
    obtain ⟨hthrough, hlast⟩ := Prod.mk.inj (Option.some.inj hlooked)
    cases hlast
    exact ⟨s, hreach, delta, Option.some.inj hthrough, hdelta, hframed⟩

end Progress

end OrbitKV
