import OrbitKV.Lib.ChangeLog
import OrbitKV.Lib.OrderedMap
import OrbitKV.Storage.Inventory

/-!
# The history of an inventory

An inventory is determined by the list of all records it ever wrote.
-/

namespace OrbitKV

open Std ChangeKind Inventory ExtTreeMap

variable {key : StateKey} {medium : ReplicaMedium} {metadata : Option ReplicaMetadata}
  {cursor : Option Residence} {scope : InventoryScope} {after : Nat} {input : List InventoryRecord}

def InventoryRecord.residence (record : InventoryRecord) : Residence :=
  (record.key, (record.metadata.map (·.medium)).getD .unknown)

def residency : ChangeKind Residence InventoryRecord where
  key := InventoryRecord.residence
  present := InventoryRecord.present
  sequence := InventoryRecord.sequence

structure Tracks (log : List InventoryRecord) (inventory : Inventory)
    (past : List RecordMap) : Prop where
  sequence : inventory.sequence = log.length
  numbered : residency.Numbered log
  metadata : ∀ record ∈ log, record.metadata.isSome
  residents : ∀ residence : Residence,
    inventory.residents[residence]? = residency.stateAt log log.length residence
  journal : inventory.journal <:+ log
  past_length : past.length = log.length + 1
  past_state : ∀ (n : Nat) (residents : RecordMap),
    past[n]? = some residents →
    ∀ residence : Residence, residents[residence]? = residency.stateAt log n residence

theorem tracks_new (byteLimit : Nat) : Tracks [] (.new byteLimit) [∅] where
  sequence := rfl
  numbered := by simp [Numbered]
  metadata := by simp
  residents := by simp [new, stateAt, lastChange]
  journal := List.suffix_refl []
  past_length := rfl
  past_state := by
    intro n residents hresidents residence
    obtain ⟨rfl, rfl⟩ : n = 0 ∧ ∅ = residents := by
      cases n <;> simp_all
    simp [stateAt, lastChange]

/-! ### Changes -/

theorem trimJournal_suffix (byteLimit : Nat) (journal : List InventoryRecord) (bytes : Nat) :
    (trimJournal byteLimit journal bytes).1 <:+ journal := by
  induction journal generalizing bytes with
  | nil => exact List.suffix_refl []
  | cons record rest ih =>
    unfold trimJournal
    split
    · exact (ih _).trans (List.suffix_cons record rest)
    · exact List.suffix_refl _

variable {log : List InventoryRecord} {past : List RecordMap} {inventory inventory' : Inventory}

theorem Tracks.append {inventory : Inventory} (htracks : Tracks log inventory past)
    {identity : Residence} {record : InventoryRecord} (hidentity : record.residence = identity)
    (hmetadata : record.metadata.isSome) (hsequence : record.sequence = inventory.sequence + 1) :
    Tracks (log ++ [record]) (inventory.append identity record)
      (past ++ [(inventory.append identity record).residents]) := by
  have hresidents : ∀ residence : Residence,
      (inventory.append identity record).residents[residence]? =
        residency.stateAt (log ++ [record]) (log.length + 1) residence := by
    intro residence
    rw [stateAt_snoc, ← htracks.residents]
    simp only [Inventory.append, residency, hidentity, outcome]
    by_cases heq : identity = residence
    · subst heq
      split <;> rename_i hpresent <;> simp [hpresent]
    · split <;> simp [getElem?_insert, getElem?_erase, heq]
  refine ⟨?_, ?_, ?_, ?_, ?_, ?_, ?_⟩
  · simp [Inventory.append, hsequence, htracks.sequence]
  · intro i hi
    rw [List.getElem_append]
    split
    case isTrue hlt => exact htracks.numbered i hlt
    case isFalse hge =>
      obtain rfl : i = log.length := by simp at hi; omega
      simp [residency, hsequence, htracks.sequence]
  · intro r hr
    rcases List.mem_append.mp hr with hr | hr
    · exact htracks.metadata r hr
    · rwa [List.mem_singleton.mp hr]
  · simpa using hresidents
  · exact (trimJournal_suffix _ _ _).trans (List.suffix_append_self_iff.mpr htracks.journal)
  · simp [htracks.past_length]
  · intro n residents hpast residence
    rw [List.getElem?_append] at hpast
    split at hpast
    case isTrue hlt =>
      rw [stateAt_append _ _ (by rw [htracks.past_length] at hlt; omega)]
      exact htracks.past_state n residents hpast residence
    case isFalse hge =>
      obtain ⟨hn, rfl⟩ : n = past.length ∧ _ = residents := by
        rw [List.getElem?_singleton] at hpast
        split at hpast
        · exact ⟨by omega, Option.some.inj hpast⟩
        · cases hpast
      rw [hn, htracks.past_length]
      exact hresidents residence

theorem Tracks.residence_nextRecord {inventory : Inventory} (htracks : Tracks log inventory past)
    (hmedium : ∀ given, metadata = some given → given.medium = medium)
    (hne : inventory.residentMetadata (key, medium) ≠ metadata) :
    let record := inventory.nextRecord key (inventory.residentMetadata (key, medium)) metadata
    record.residence = (key, medium) ∧ record.metadata.isSome := by
  cases metadata with
  | some given => simp [nextRecord, InventoryRecord.residence, hmedium given rfl]
  | none =>
    obtain ⟨old, hold⟩ := Option.ne_none_iff_exists'.mp hne
    obtain ⟨resident, hresident, hmetadata⟩ := Option.bind_eq_some_iff.mp hold
    rw [htracks.residents] at hresident
    obtain ⟨-, hkey, -⟩ := stateAt_eq_some hresident
    obtain ⟨-, hold'⟩ := Prod.mk.inj hkey
    rw [hmetadata] at hold'
    simpa [nextRecord, InventoryRecord.residence, hold] using hold'

theorem Inventory.change_ok (hok : inventory.change key medium metadata = .ok inventory') :
    inventory' = inventory ∨
      (∀ given, metadata = some given → given.medium = medium) ∧
        inventory.residentMetadata (key, medium) ≠ metadata ∧
        inventory' = inventory.append (key, medium)
          (inventory.nextRecord key (inventory.residentMetadata (key, medium)) metadata) := by
  unfold change at hok
  split at hok
  · cases hok
  split at hok
  · cases hok
  next hmismatch =>
  simp only at hok
  split at hok
  · exact .inl (Except.ok.inj hok).symm
  next hne =>
  split at hok
  case isFalse => cases hok
  refine .inr ⟨?_, hne, (Except.ok.inj hok).symm⟩
  rintro given rfl
  simpa using hmismatch

theorem Tracks.change (htracks : Tracks log inventory past)
    (hok : inventory.change key medium metadata = .ok inventory') :
    Tracks
      (log ++ if inventory'.sequence = inventory.sequence then []
        else [inventory.nextRecord key (inventory.residentMetadata (key, medium)) metadata])
      inventory'
      (if inventory'.sequence = inventory.sequence then past
        else past ++ [inventory'.residents]) := by
  obtain rfl | ⟨hmedium, hne, rfl⟩ := Inventory.change_ok hok
  · rw [if_pos rfl, if_pos rfl, List.append_nil]
    exact htracks
  · obtain ⟨hresidence, hsome⟩ := htracks.residence_nextRecord hmedium hne
    have hsequence : (inventory.append (key, medium) (inventory.nextRecord key
        (inventory.residentMetadata (key, medium)) metadata)).sequence ≠ inventory.sequence := by
      simp [Inventory.append, Inventory.nextRecord]
    rw [if_neg hsequence, if_neg hsequence]
    exact htracks.append hresidence hsome rfl

theorem Tracks.of_read (htracks : Tracks log inventory past)
    (hsequence : inventory'.sequence = inventory.sequence)
    (hresidents : inventory'.residents = inventory.residents)
    (hjournal : inventory'.journal = inventory.journal) : Tracks log inventory' past :=
  { htracks with
    sequence := hsequence.trans htracks.sequence
    residents := by
      rw [hresidents]
      exact htracks.residents
    journal := by
      rw [hjournal]
      exact htracks.journal }

theorem Tracks.of_scopedPage {inventory : Inventory} (htracks : Tracks log inventory past)
    (cursor : Option Residence)
    (scope : InventoryScope) : Tracks log (inventory.scopedPage cursor scope).2 past := by
  unfold scopedPage
  split <;> exact htracks.of_read rfl rfl rfl

theorem Tracks.of_coalescedChangesScoped {inventory : Inventory}
    (htracks : Tracks log inventory past) (after through : Nat)
    (scope : InventoryScope) :
    Tracks log (inventory.coalescedChangesScoped after through scope).2 past := by
  have hchanges : Tracks log (inventory.changes after through).2 past := by
    unfold changes
    split
    · exact htracks.of_read rfl rfl rfl
    split
    · exact htracks
    split <;> exact htracks
  unfold coalescedChangesScoped
  split
  · next hresult => rwa [hresult] at hchanges
  next hresult =>
  rw [hresult] at hchanges
  split
  · exact hchanges
  · exact hchanges.of_read rfl rfl rfl

/-! ### Scoped states -/

def scopedResidency (scope : InventoryScope) : ChangeKind Residence InventoryRecord :=
  { residency with present := fun record => record.present && scope.contains record.key.ns }

theorem stateAt_scopedResidency (scope : InventoryScope) (log : List InventoryRecord) (n : Nat)
    (residence : Residence) :
    (scopedResidency scope).stateAt log n residence =
      if scope.contains residence.1.ns then residency.stateAt log n residence else none := by
  have hlast : (scopedResidency scope).lastChange = residency.lastChange := rfl
  rw [stateAt, stateAt, hlast]
  cases hchange : residency.lastChange (log.take n) residence with
  | none => simp
  | some record =>
    obtain rfl : record.residence = residence := (lastChange_mem hchange).2
    cases hscope : scope.contains record.residence.1.ns <;>
      simp_all [outcome, scopedResidency, residency, InventoryRecord.residence]

/-! ### Pages -/

def Covered (cursor : Option Residence) (residence : Residence) : Prop :=
  ∃ last, cursor = some last ∧ (compare residence last).isLE

def InventoryPage.Covers (page : InventoryPage) (residence : Residence) : Prop :=
  page.complete = true ∨ Covered page.next residence

theorem not_covered_iff {residence : Residence} :
    ¬Covered cursor residence ↔ cursor.all fun last => compare last residence = .lt := by
  cases cursor with
  | none => simp [Covered]
  | some last => simp [Covered, OrientedCmp.gt_iff_lt]

theorem scanPage_ok {source : List (Residence × InventoryRecord)} :
    ∀ {scanned bytes : Nat} {records : List InventoryRecord} {next : Option Residence}
      {page : InventoryPage} {total : Nat},
      scanPage scope source scanned bytes records next = .ok (page, total) →
      ∃ taken rest, source = taken ++ rest ∧
        page.records = records ++ (taken.map (·.2)).filter (scope.contains ·.key.ns) ∧
        page.next = (taken.getLast?.map (·.1)).or next ∧
        page.complete = rest.isEmpty ∧ (rest ≠ [] → taken ≠ [] ∨ 0 < scanned) := by
  induction source with
  | nil =>
    intro scanned bytes records next page total hok
    obtain ⟨rfl, -⟩ := by simpa [scanPage] using hok
    exact ⟨[], [], by simp⟩
  | cons entry source ih =>
    intro scanned bytes records next page total hok
    unfold scanPage at hok
    simp only at hok
    split at hok
    · next hfull =>
      obtain ⟨rfl, -⟩ := by simpa using hok
      refine ⟨[], entry :: source, by simp, by simp, by simp, by simp, fun _ => .inr ?_⟩
      rcases hfull with rfl | ⟨hpos, -⟩
      · decide
      · exact hpos
    split at hok
    · cases hok
    obtain ⟨taken, rest, rfl, hrecords, hnext, hcomplete, -⟩ := ih hok
    refine ⟨entry :: taken, rest, rfl, ?_, ?_, hcomplete, by simp⟩
    · rw [hrecords]
      split <;> simp_all
    · rw [hnext, List.getLast?_cons]
      cases taken.getLast? <;> rfl

theorem mem_taken_iff_covers {taken rest : List (Residence × InventoryRecord)}
    (hsorted : (taken ++ rest).Pairwise fun a b => compare a.1 b.1 = .lt) {page : InventoryPage}
    (hnext : page.next = taken.getLast?.map (·.1)) (hcomplete : page.complete = rest.isEmpty)
    {entry : Residence × InventoryRecord} (hmem : entry ∈ taken ++ rest) :
    entry ∈ taken ↔ page.Covers entry.1 := by
  obtain ⟨htaken, -, hacross⟩ := List.pairwise_append.mp hsorted
  constructor
  · intro hin
    obtain ⟨init, last, rfl⟩ := List.eq_nil_or_concat' taken |>.resolve_left (List.ne_nil_of_mem hin)
    refine .inr ⟨last.1, by simp [hnext], ?_⟩
    rcases List.mem_append.mp hin with hinit | hlast
    · have hlt := (List.pairwise_append.mp htaken).2.2 entry hinit last List.mem_cons_self
      rw [hlt]
      rfl
    · rw [List.mem_singleton.mp hlast, compare_self]
      rfl
  · intro hcovers
    refine (List.mem_append.mp hmem).resolve_right fun hrest => ?_
    rcases hcovers with hdone | ⟨last, hlast, hle⟩
    · rw [hcomplete, List.isEmpty_iff] at hdone
      simp [hdone] at hrest
    · obtain ⟨found, hfound, rfl⟩ := Option.map_eq_some_iff.mp (hnext.symm.trans hlast)
      have hlt := hacross found (List.mem_of_getLast? hfound) entry hrest
      exact OrientedCmp.not_isLE_of_lt hlt hle

/-- **A page of a scan.** Its records are the in-scope residents of the moment that lie behind the
cursor and are covered now, and what was covered stays covered. -/
structure PageRead (log : List InventoryRecord) (scope : InventoryScope)
    (cursor : Option Residence) (page : InventoryPage) : Prop where
  covers : ∀ residence, Covered cursor residence → page.Covers residence
  read : ∀ residence record, residency.lastChange page.records residence = some record ↔
    (scopedResidency scope).stateAt log log.length residence = some record ∧
      ¬Covered cursor residence ∧ page.Covers residence

theorem Tracks.mem_residentsAfter {inventory : Inventory} (htracks : Tracks log inventory past)
    {residence : Residence} {record : InventoryRecord} :
    (residence, record) ∈ inventory.residentsAfter cursor ↔
      residency.stateAt log log.length residence = some record ∧ ¬Covered cursor residence := by
  rw [residentsAfter, List.mem_filter, mem_toList_iff_getElem?_eq_some,
    htracks.residents, not_covered_iff]

theorem Tracks.scopedPage (htracks : Tracks log inventory past) {page : InventoryPage}
    (hok : inventory.scopedPage cursor scope = (.ok page, inventory')) :
    PageRead log scope cursor page := by
  unfold Inventory.scopedPage at hok
  split at hok
  · cases hok
  next scanned total hscan =>
  cases hok
  obtain ⟨taken, rest, hsource, hrecords, hnext, hcomplete, hprogress⟩ := scanPage_ok hscan
  rw [Option.or_none] at hnext
  have hsorted : (taken ++ rest).Pairwise fun a b => compare a.1 b.1 = .lt := by
    rw [← hsource]
    exact ExtTreeMap.ordered_keys_toList.filter _
  have hmem : ∀ (residence : Residence) (record : InventoryRecord),
      (residence, record) ∈ taken ↔ residency.stateAt log log.length residence = some record ∧
        ¬Covered cursor residence ∧ page.Covers residence := by
    intro residence record
    rw [← and_assoc, ← htracks.mem_residentsAfter, hsource]
    constructor
    · intro hin
      have hall := List.mem_append_left rest hin
      exact ⟨hall, (mem_taken_iff_covers hsorted hnext hcomplete hall).mp hin⟩
    · rintro ⟨hall, hcovers⟩
      exact (mem_taken_iff_covers hsorted hnext hcomplete hall).mpr hcovers
  constructor
  · intro residence hcovered
    by_cases hrest : rest = []
    · exact .inl (by simp [hcomplete, hrest])
    -- the scan has moved on, so the new cursor lies behind the old one
    have htaken : taken ≠ [] := (hprogress hrest).resolve_right (lt_irrefl 0)
    obtain ⟨init, last, rfl⟩ := List.eq_nil_or_concat' taken |>.resolve_left htaken
    refine .inr ⟨last.1, by simp [hnext], ?_⟩
    obtain ⟨old, rfl, hle⟩ := hcovered
    have hlast : ¬Covered (some old) last.1 := ((hmem last.1 last.2).mp (by simp)).2.1
    rw [not_covered_iff] at hlast
    have hlt := TransCmp.lt_of_isLE_of_lt hle (by simpa using hlast)
    rw [hlt]
    rfl
  · intro residence record
    rw [stateAt_scopedResidency, hrecords, List.nil_append]
    constructor
    · intro hlast
      obtain ⟨hpage, hkey⟩ := lastChange_mem hlast
      obtain ⟨hmap, hscope⟩ := List.mem_filter.mp hpage
      obtain ⟨⟨found, record⟩, hin, rfl⟩ := List.mem_map.mp hmap
      have hfound := (hmem found record).mp hin
      obtain rfl : found = residence := (stateAt_eq_some hfound.1).2.1.symm.trans hkey
      have hkey : record.key = found.1 := congrArg Prod.fst hkey
      rw [if_pos (by rw [← hkey]; exact hscope)]
      exact hfound
    · rintro ⟨hstate, huncovered, hcovers⟩
      split at hstate
      case isFalse => cases hstate
      next hscope =>
      have hin := (hmem residence record).mpr ⟨hstate, huncovered, hcovers⟩
      have hkey := (stateAt_eq_some hstate).2.1
      -- some record of the page has this residence, and only one resident does
      cases hlast : residency.lastChange
          ((taken.map (·.2)).filter (scope.contains ·.key.ns)) residence with
      | none =>
        rw [lastChange, List.find?_eq_none] at hlast
        refine absurd (decide_eq_true hkey) (hlast record (List.mem_reverse.mpr ?_))
        refine List.mem_filter.mpr ⟨List.mem_map_of_mem hin, ?_⟩
        rwa [show record.key = residence.1 from congrArg Prod.fst hkey]
      | some found =>
        obtain ⟨hpage, hkey'⟩ := lastChange_mem hlast
        obtain ⟨⟨place, found⟩, hin', rfl⟩ := List.mem_map.mp (List.mem_filter.mp hpage).1
        have hfound := ((hmem place found).mp hin').1
        obtain rfl : place = residence := (stateAt_eq_some hfound).2.1.symm.trans hkey'
        exact hfound.symm.trans hstate

/-! ### Deltas -/

theorem boundedRecords_ok {source : List InventoryRecord} :
    ∀ {result : List InventoryRecord} {bytes : Nat} {output : List InventoryRecord},
      boundedRecords source result bytes = .ok output →
      ∃ taken, taken <+: source ∧ output = result ++ taken := by
  induction source with
  | nil =>
    intro result bytes output hok
    obtain rfl : result = output := by simpa [boundedRecords] using hok
    exact ⟨[], List.nil_prefix, by simp⟩
  | cons record source ih =>
    intro result bytes output hok
    unfold boundedRecords at hok
    simp only at hok
    split at hok
    · cases hok
    split at hok
    · obtain rfl : result = output := by simpa using hok
      exact ⟨[], List.nil_prefix, by simp⟩
    · obtain ⟨taken, hprefix, rfl⟩ := ih hok
      exact ⟨record :: taken, (List.prefix_cons_inj record).mpr hprefix, by simp⟩

theorem Tracks.journal_slice {inventory : Inventory} (htracks : Tracks log inventory past)
    {through : Nat} {front : InventoryRecord} (hfront : inventory.journal.head? = some front)
    (hfrom : front.sequence ≤ after + 1) (hlt : after < through) :
    (inventory.journal.drop (after + 1 - front.sequence)).take
        (through - front.sequence + 1 - (after + 1 - front.sequence)) =
      window log after through := by
  obtain ⟨older, holder⟩ := htracks.journal
  obtain ⟨rest, hrest⟩ : ∃ rest, inventory.journal = front :: rest := by
    cases hjournal : inventory.journal with
    | nil => simp [hjournal] at hfront
    | cons head rest =>
      obtain rfl : head = front := by simpa [hjournal] using hfront
      exact ⟨rest, rfl⟩
  have hsequence : front.sequence = older.length + 1 := by
    have hlength : older.length < log.length := by
      rw [← holder, hrest]
      simp
    have hnumber := htracks.numbered older.length hlength
    simpa [← holder, hrest, residency] using hnumber
  have hdrop : log.drop after = inventory.journal.drop (after - older.length) := by
    rw [← holder, List.drop_append, List.drop_eq_nil_of_le (by omega), List.nil_append]
  have hstart : after + 1 - front.sequence = after - older.length := by omega
  have hsize : through - front.sequence + 1 - (after + 1 - front.sequence) = through - after := by
    omega
  rw [window, List.drop_take, hdrop, hsize, hstart]

theorem Tracks.changes_ok (htracks : Tracks log inventory past) {through : Nat}
    (hok : inventory.changes after through = (.ok input, inventory')) :
    after + input.length ≤ through ∧ after + input.length ≤ log.length ∧
      input = window log after (after + input.length) ∧ inventory' = inventory := by
  unfold changes at hok
  split at hok
  · cases hok
  next hgap =>
  simp only [hasGap, Bool.or_eq_true, Bool.and_eq_true, decide_eq_true_eq, not_or,
    Nat.not_lt, not_and, htracks.sequence] at hgap
  obtain ⟨⟨hle, hhead⟩, hjournal⟩ := hgap
  split at hok
  · cases hok
    simp only [List.length_nil, Nat.add_zero, List.nil_eq, and_true]
    exact ⟨hle, hle.trans hhead, by simp [window]⟩
  next hne =>
  split at hok
  · cases hok
  next front hfront =>
  obtain ⟨hbounded, rfl⟩ := Prod.mk.inj hok
  have hfrom : front.sequence ≤ after + 1 := by
    have := hjournal (by omega)
    simpa [hfront] using this
  rw [htracks.journal_slice hfront hfrom (by omega)] at hbounded
  obtain ⟨taken, hprefix, rfl⟩ : ∃ taken, taken <+: _ ∧ input = taken := by
    simpa using boundedRecords_ok hbounded
  have hlength := hprefix.length_le
  rw [window, List.length_drop, List.length_take] at hlength
  refine ⟨by omega, by omega, ?_, rfl⟩
  calc input = (window log after through).take input.length :=
        List.prefix_iff_eq_take.mp hprefix
    _ = window log after (after + input.length) := by
        rw [window, window, List.drop_take, List.drop_take, List.take_take]
        congr 1
        omega

theorem coalesce_ok :
    ∀ {records records' : RecordMap}, coalesce scope input records = .ok records' →
      ∀ residence : Residence, records'[residence]? =
        if scope.contains residence.1.ns then
          (residency.lastChange input residence).or records[residence]?
        else records[residence]? := by
  induction input with
  | nil =>
    intro records records' hok residence
    obtain rfl : records = records' := by simpa [coalesce] using hok
    simp [lastChange]
  | cons record input ih =>
    intro records records' hok residence
    unfold coalesce at hok
    split at hok
    · cases hok
    next metadata hmetadata =>
    have hresidence : record.residence = (record.key, metadata.medium) := by
      simp [InventoryRecord.residence, hmetadata]
    have hcons : residency.lastChange (record :: input) residence =
        (residency.lastChange input residence).or
          (if (record.key, metadata.medium) = residence then some record else none) := by
      rw [← List.singleton_append, lastChange_append, ← hresidence]
      by_cases hkey : record.residence = residence <;>
        simp [lastChange, residency, hkey]
    rw [ih hok residence, hcons]
    by_cases hkey : (record.key, metadata.medium) = residence
    · subst hkey
      cases scope.contains record.key.ns <;> simp
    · split
      · cases scope.contains record.key.ns <;> simp [getElem?_insert, hkey]
      · cases scope.contains record.key.ns <;> simp [getElem?_insert, hkey]

/-- **A delta of the journal.** It covers the changes after `after` up to `through`, and its records
are the last in-scope change of each residence there. -/
structure DeltaRead (log : List InventoryRecord) (scope : InventoryScope) (after through : Nat)
    (records : List InventoryRecord) : Prop where
  after_le : after ≤ through
  through_le : through ≤ log.length
  distinct : records.Pairwise fun a b => a.residence ≠ b.residence
  read : ∀ residence, residency.lastChange records residence =
    if scope.contains residence.1.ns then
      residency.lastChange (window log after through) residence
    else none

theorem lastChange_toList {records : RecordMap}
    (hfiled : ∀ (residence : Residence) (record : InventoryRecord),
      records[residence]? = some record → record.residence = residence) :
    (records.toList.map (·.2)).Pairwise (fun a b => a.residence ≠ b.residence) ∧
      ∀ residence : Residence,
        residency.lastChange (records.toList.map (·.2)) residence = records[residence]? := by
  have hmem : ∀ entry ∈ records.toList, entry.2.residence = entry.1 := fun entry hentry =>
    hfiled entry.1 entry.2 (mem_toList_iff_getElem?_eq_some.mp hentry)
  constructor
  · rw [List.pairwise_map]
    refine (distinct_fst_toList records).imp_of_mem fun {a b} ha hb hne => ?_
    rwa [hmem a ha, hmem b hb]
  · intro residence
    refine Option.ext fun record => ⟨fun hlast => ?_, fun hrecord => ?_⟩
    · obtain ⟨hin, rfl⟩ := lastChange_mem hlast
      obtain ⟨entry, hentry, rfl⟩ := List.mem_map.mp hin
      change records[entry.2.residence]? = _
      rw [hmem entry hentry]
      exact mem_toList_iff_getElem?_eq_some.mp hentry
    · have hentry := mem_toList_iff_getElem?_eq_some.mpr hrecord
      cases hlast : residency.lastChange (records.toList.map (·.2)) residence with
      | none =>
        rw [lastChange, List.find?_eq_none] at hlast
        refine absurd (decide_eq_true (hfiled residence record hrecord)) (hlast record ?_)
        exact List.mem_reverse.mpr (List.mem_map_of_mem hentry)
      | some found =>
        obtain ⟨hin, rfl⟩ := lastChange_mem hlast
        obtain ⟨entry, hentry', rfl⟩ := List.mem_map.mp hin
        have hkey := hmem entry hentry'
        rw [show residency.key entry.2 = entry.1 from hkey] at hrecord
        exact (mem_toList_iff_getElem?_eq_some.mp hentry').symm.trans hrecord

theorem Tracks.sequence_last {inventory : Inventory} (htracks : Tracks log inventory past)
    (hlength : after + input.length ≤ log.length)
    (hinput : input = window log after (after + input.length)) :
    (input.getLast?.map (·.sequence)).getD after = after + input.length := by
  cases hlast : input.getLast? with
  | none => simp [List.getLast?_eq_none_iff.mp hlast]
  | some last =>
    rw [hinput] at hlast
    exact htracks.numbered.sequence_getLast? hlength hlast

theorem Tracks.coalescedChangesScoped (htracks : Tracks log inventory past) {limit : Nat}
    {delta : InventoryDelta}
    (hok : inventory.coalescedChangesScoped after limit scope = (.ok delta, inventory')) :
    delta.through ≤ limit ∧ DeltaRead log scope after delta.through delta.records := by
  unfold Inventory.coalescedChangesScoped at hok
  split at hok
  · cases hok
  next input state hchanges =>
  split at hok
  · cases hok
  next records hcoalesce =>
  obtain ⟨hdelta, -⟩ := Prod.mk.inj hok
  cases hdelta
  obtain ⟨hlimit, hlength, hinput, -⟩ := htracks.changes_ok hchanges
  have hrecords : ∀ residence : Residence, records[residence]? =
      if scope.contains residence.1.ns then residency.lastChange input residence else none := by
    intro residence
    rw [coalesce_ok hcoalesce residence]
    simp
  have hfiled : ∀ (residence : Residence) (record : InventoryRecord),
      records[residence]? = some record → record.residence = residence := by
    intro residence record hrecord
    rw [hrecords] at hrecord
    split at hrecord
    · exact (lastChange_mem hrecord).2
    · cases hrecord
  obtain ⟨hdistinct, hlookup⟩ := lastChange_toList hfiled
  simp only [htracks.sequence_last hlength hinput]
  refine ⟨hlimit, by omega, hlength, hdistinct, fun residence => ?_⟩
  rw [hlookup, hrecords, ← hinput]

end OrbitKV
