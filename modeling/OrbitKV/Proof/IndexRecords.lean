import OrbitKV.Lib.OrderedMap
import OrbitKV.Catalog.Index

/-!
# What the index accepts

A record of an owner's map lies under its own residence, is present and has metadata.
-/

namespace OrbitKV

open Std

variable {record : InventoryRecord} {bound : Nat} {scope : InventoryScope}

theorem validateRecord_ok {residence : Residence}
    (hok : validateRecord record = .ok residence) : record.residence? = some residence := by
  unfold validateRecord at hok
  split at hok
  · cases hok
  · next metadata hmetadata =>
    split at hok
    · cases hok
    · simpa [InventoryRecord.residence?, hmetadata] using hok

structure Advertised (records : RecordMap) (bound : Nat) : Prop where
  residence : ∀ (residence : Residence) (record : InventoryRecord),
    records[residence]? = some record → record.residence? = some residence
  present : ∀ (residence : Residence) (record : InventoryRecord),
    records[residence]? = some record → record.present = true
  sequence_le : ∀ (residence : Residence) (record : InventoryRecord),
    records[residence]? = some record → record.sequence ≤ bound

theorem Advertised.empty (bound : Nat) : Advertised ∅ bound := by
  constructor <;> simp

theorem Advertised.mono {records : RecordMap} {bound' : Nat}
    (hrecords : Advertised records bound) (hle : bound ≤ bound') : Advertised records bound' where
  residence := hrecords.residence
  present := hrecords.present
  sequence_le residence record hrecord := (hrecords.sequence_le residence record hrecord).trans hle

theorem Advertised.insert {records : RecordMap}
    (hrecords : Advertised records bound) {residence : Residence}
    (hresidence : record.residence? = some residence) (hpresent : record.present = true)
    (hle : record.sequence ≤ bound) : Advertised (records.insert residence record) bound := by
  constructor
  all_goals
    intro r found hfound
    obtain ⟨rfl, rfl⟩ | ⟨-, hold⟩ := getElem?_insert_eq_some hfound
  · exact hresidence
  · exact hrecords.residence r found hold
  · exact hpresent
  · exact hrecords.present r found hold
  · exact hle
  · exact hrecords.sequence_le r found hold

theorem Advertised.of_subset {records records' : RecordMap}
    (hrecords : Advertised records bound)
    (hsubset : ∀ (r : Residence) (record : InventoryRecord),
      records'[r]? = some record → records[r]? = some record) : Advertised records' bound where
  residence r record hrecord := hrecords.residence r record (hsubset r record hrecord)
  present r record hrecord := hrecords.present r record (hsubset r record hrecord)
  sequence_le r record hrecord := hrecords.sequence_le r record (hsubset r record hrecord)

/-! ### Pages -/

variable {records : List InventoryRecord}

theorem validatePage_ok :
    ∀ {last : Option Residence} {bytes : Nat} {updates : List (Residence × InventoryRecord)},
      validatePage scope last records = .ok (bytes, updates) →
      updates.map (·.2) = records ∧
        ∀ update ∈ updates, update.2.residence? = some update.1 ∧ update.2.present = true := by
  induction records with
  | nil =>
    intro last bytes updates hok
    obtain ⟨-, rfl⟩ := by simpa [validatePage] using hok
    simp
  | cons record records ih =>
    intro last bytes updates hok
    unfold validatePage at hok
    split at hok
    · cases hok
    split at hok
    · cases hok
    next residence hresidence =>
    split at hok
    · cases hok
    next haccepted =>
    split at hok
    · cases hok
    next bytes' updates' hrest =>
    obtain ⟨-, rfl⟩ := by simpa using hok
    obtain ⟨hmap, hall⟩ := ih hrest
    have hpresent : record.present = true := by
      by_contra hnot
      exact haccepted (.inl (by simpa using hnot))
    refine ⟨by simp [hmap], ?_⟩
    rintro update (_ | ⟨_, hmem⟩)
    · exact ⟨validateRecord_ok hresidence, hpresent⟩
    · exact hall update hmem

/-! ### Deltas -/

theorem latestRecords_ok {fromExclusive throughInclusive : Nat} :
    ∀ {latest latest' : RecordMap},
      latestRecords scope fromExclusive throughInclusive records latest = .ok latest' →
      ∀ (residence : Residence) (record : InventoryRecord), latest'[residence]? = some record →
        latest[residence]? = some record ∨
          record.residence? = some residence ∧ fromExclusive < record.sequence ∧
            record.sequence ≤ throughInclusive := by
  induction records with
  | nil =>
    intro latest latest' hok residence record hrecord
    obtain rfl : latest = latest' := by simpa [latestRecords] using hok
    exact .inl hrecord
  | cons head records ih =>
    intro latest latest' hok residence record hrecord
    unfold latestRecords at hok
    split at hok
    · cases hok
    split at hok
    · cases hok
    next hinterval =>
    split at hok
    · cases hok
    next headResidence hvalid =>
    split at hok
    · exact ih hok residence record hrecord
    split at hok
    · cases hok
    obtain hinsert | hnew := ih hok residence record hrecord
    · obtain ⟨rfl, rfl⟩ | ⟨-, hold⟩ := getElem?_insert_eq_some hinsert
      · exact .inr ⟨validateRecord_ok hvalid, by omega, by omega⟩
      · exact .inl hold
    · exact .inr hnew

theorem validateDelta_ok {current : RecordMap}
    {fromExclusive throughInclusive : Nat} {delta : Int}
    {updates : List (Residence × InventoryRecord)}
    (hok : validateDelta current fromExclusive throughInclusive records scope =
      .ok (delta, updates)) :
    fromExclusive < throughInclusive ∧
      ∃ latest, latestRecords scope fromExclusive throughInclusive records ∅ = .ok latest ∧
        updates = latest.toList ∧
        ∀ (residence : Residence) (record : InventoryRecord), latest[residence]? = some record →
          record.residence? = some residence ∧ fromExclusive < record.sequence ∧
            record.sequence ≤ throughInclusive := by
  unfold validateDelta at hok
  split at hok
  · cases hok
  next hinterval =>
  split at hok
  · cases hok
  next latest hlatest =>
  refine ⟨by omega, latest, hlatest, ?_, fun residence record hrecord => ?_⟩
  · cases hbytes : deltaBytes current latest.toList with
    | error error => simp [hbytes, Except.map] at hok
    | ok bytes =>
      simp only [hbytes, Except.map, Except.ok.injEq, Prod.mk.injEq] at hok
      exact hok.2.symm
  · obtain hempty | hnew := latestRecords_ok hlatest residence record hrecord
    · simp at hempty
    · exact hnew

def mergeRecord (record : InventoryRecord) (current : Option InventoryRecord) :
    Option InventoryRecord :=
  if current.any fun previous => record.sequence < previous.sequence then
    current
  else if record.present then
    some record
  else
    none

theorem keyedStep_applyRecord (entries : List (Residence × InventoryRecord)) :
    KeyedStep applyRecord (fun records (residence : Residence) => records[residence]?)
      (fun _ => mergeRecord) entries where
  self records residence record _ := by
    unfold applyRecord mergeRecord
    split
    · rfl
    · split <;> simp
  other records residence record residence' _ hne := by
    unfold applyRecord
    split
    · rfl
    · split <;> simp [ExtTreeMap.getElem?_insert, ExtTreeMap.getElem?_erase, hne.symm]

theorem getElem?_applyRecords (records latest : RecordMap) (residence : Residence) :
    (applyRecords records latest.toList)[residence]? =
      latest[residence]?.elim records[residence]? fun record =>
        mergeRecord record records[residence]? :=
  (keyedStep_applyRecord latest.toList).foldl_toList records residence

def Located (latest : RecordMap) : Prop :=
  ∀ (residence : Residence) (record : InventoryRecord),
    latest[residence]? = some record → record.residence? = some residence

theorem mergeRecord_eq_some {found : InventoryRecord} {current : Option InventoryRecord}
    (hfound : mergeRecord record current = some found) :
    current = some found ∨ found = record ∧ record.present = true := by
  unfold mergeRecord at hfound
  split at hfound
  · exact .inl hfound
  · split at hfound
    · next hpresent => exact .inr ⟨(Option.some.inj hfound).symm, hpresent⟩
    · cases hfound

theorem mergeRecord_of_newer {current : Option InventoryRecord}
    (hnewer : ∀ previous, current = some previous → previous.sequence ≤ record.sequence) :
    mergeRecord record current = if record.present then some record else none := by
  unfold mergeRecord
  rw [if_neg]
  cases current with
  | none => simp
  | some previous => simpa using hnewer previous rfl

theorem Advertised.applyRecords {records latest : RecordMap}
    {through : Nat} (hrecords : Advertised records bound) (hle : bound ≤ through)
    (hlocated : Located latest)
    (hthrough : ∀ (residence : Residence) (record : InventoryRecord),
      latest[residence]? = some record → record.sequence ≤ through) :
    Advertised (applyRecords records latest.toList) through := by
  have horigin : ∀ (residence : Residence) (record : InventoryRecord),
      (OrbitKV.applyRecords records latest.toList)[residence]? = some record →
      records[residence]? = some record ∨
        latest[residence]? = some record ∧ record.present = true := by
    intro residence record hrecord
    rw [getElem?_applyRecords] at hrecord
    cases hlatest : latest[residence]? with
    | none => exact .inl (by simpa [hlatest] using hrecord)
    | some update =>
      rw [hlatest] at hrecord
      obtain hold | ⟨rfl, hpresent⟩ := mergeRecord_eq_some hrecord
      · exact .inl hold
      · exact .inr ⟨rfl, hpresent⟩
  constructor
  all_goals
    intro residence record hrecord
    obtain hold | ⟨hnew, hpresent⟩ := horigin residence record hrecord
  · exact hrecords.residence residence record hold
  · exact hlocated residence record hnew
  · exact hrecords.present residence record hold
  · exact hpresent
  · exact (hrecords.sequence_le residence record hold).trans hle
  · exact hthrough residence record hnew

end OrbitKV
