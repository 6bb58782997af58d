import OrbitKV.Lib.MapSum
import OrbitKV.Proof.IndexCoherence

/-!
# The byte accounts of the global index

A charge, counted during validation, is what the later change adds to the sum over the records.
-/

namespace OrbitKV

open Std

/-! ### Bytes of records -/

def recordBytes (records : RecordMap) : Nat :=
  mapSum records fun residence _ => entryBytes residence.1

def OwnerView.bytes (ownerView : OwnerView) : Nat :=
  ownerAccountingBytes + recordBytes ownerView.records

variable {records : RecordMap} {residence : Residence} {record previous : InventoryRecord}

theorem sum_entryBytes_keys (records : RecordMap) :
    (records.keys.map fun residence => entryBytes residence.1).sum = recordBytes records := by
  rw [← ExtTreeMap.map_fst_toList_eq_keys, List.map_map]
  rfl

theorem recordBytes_insert_of_some (hfound : records[residence]? = some previous) :
    recordBytes (records.insert residence record) = recordBytes records :=
  mapSum_insert_eq hfound rfl

theorem recordBytes_insert_of_none (hnone : records[residence]? = none) :
    recordBytes (records.insert residence record) = recordBytes records + entryBytes residence.1 := by
  have hinsert := mapSum_insert records (fun residence _ => entryBytes residence.1) residence record
  rwa [sumAt_of_none hnone, Nat.add_zero] at hinsert

theorem recordBytes_erase_of_some (hfound : records[residence]? = some previous) :
    recordBytes (records.erase residence) + entryBytes residence.1 = recordBytes records := by
  have herase := mapSum_erase records (fun residence _ => entryBytes residence.1) residence
  rwa [sumAt_of_getElem? hfound] at herase

theorem recordBytes_erase_of_none (hnone : records[residence]? = none) :
    recordBytes (records.erase residence) = recordBytes records := by
  have herase := mapSum_erase records (fun residence _ => entryBytes residence.1) residence
  rwa [sumAt_of_none hnone, Nat.add_zero] at herase

theorem recordBytes_empty : recordBytes ∅ = 0 := mapSum_empty _

/-! ### Pages -/

def StagingView.Ordered (staging : StagingView) : Prop :=
  ∀ residence ∈ staging.records, ∃ last, staging.lastResidence = some last ∧
    (compare residence last).isLE

theorem StagingView.Ordered.getElem?_eq_none {staging : StagingView} (hordered : staging.Ordered)
    (hbehind : ¬(staging.lastResidence.any fun last => compare residence last ≠ .gt)) :
    staging.records[residence]? = none := by
  apply ExtTreeMap.getElem?_eq_none
  intro hmem
  obtain ⟨last, hlast, hle⟩ := hordered residence hmem
  simp only [hlast, Option.any_some, decide_eq_true_eq, ne_eq, not_not] at hbehind
  rw [hbehind] at hle
  cases hle

theorem StagingView.Ordered.insert {staging : StagingView} (hordered : staging.Ordered)
    (hbehind : ¬(staging.lastResidence.any fun last => compare residence last ≠ .gt))
    (record : InventoryRecord) (maxRecordSequence : Nat) :
    StagingView.Ordered { staging with
      maxRecordSequence := maxRecordSequence
      lastResidence := some residence
      records := staging.records.insert residence record } := by
  intro other hother
  refine ⟨residence, rfl, ?_⟩
  rcases ExtTreeMap.mem_insert.mp hother with heq | hold
  · rw [compare_eq_iff_eq.mp heq, compare_self]
    rfl
  · obtain ⟨last, hlast, hle⟩ := hordered other hold
    simp only [hlast, Option.any_some, decide_eq_true_eq, ne_eq, not_not] at hbehind
    have hlt := TransCmp.lt_of_isLE_of_lt hle (OrientedCmp.gt_iff_lt.mp hbehind)
    change (compare other residence).isLE
    rw [hlt]
    rfl

theorem stagePage_bytes {scope : InventoryScope} {records : List InventoryRecord} :
    ∀ {staging : StagingView} {additional : Nat} {updates : List (Residence × InventoryRecord)},
      staging.Ordered →
      validatePage scope staging.lastResidence records = .ok (additional, updates) →
      recordBytes (View.stagePage staging updates).records =
          recordBytes staging.records + additional ∧
        (View.stagePage staging updates).Ordered ∧
        (View.stagePage staging updates).replayStarted = staging.replayStarted ∧
        (View.stagePage staging updates).bytes = staging.bytes := by
  induction records with
  | nil =>
    intro staging additional updates hordered hok
    obtain ⟨rfl, rfl⟩ : 0 = additional ∧ [] = updates := by simpa [validatePage] using hok
    exact ⟨rfl, hordered, rfl, rfl⟩
  | cons head records ih =>
    intro staging additional updates hordered hok
    unfold validatePage at hok
    split at hok
    · cases hok
    split at hok
    · cases hok
    next residence hvalid =>
    split at hok
    · cases hok
    next hsorted =>
    split at hok
    · cases hok
    next bytes rest hrest =>
    obtain ⟨rfl, rfl⟩ := Prod.mk.inj (Except.ok.inj hok)
    have hbehind : ¬(staging.lastResidence.any fun last => compare residence last ≠ .gt) :=
      fun hany => hsorted (.inr hany)
    have hkey : residence.1 = head.key := by
      obtain ⟨metadata, -, rfl⟩ := Option.map_eq_some_iff.mp (validateRecord_ok hvalid)
      rfl
    obtain ⟨hbytes, hordered', hreplay, hcharge⟩ :=
      ih (hordered.insert hbehind head (max staging.maxRecordSequence head.sequence)) hrest
    refine ⟨?_, hordered', hreplay, hcharge⟩
    calc recordBytes (View.stagePage staging ((residence, head) :: rest)).records
        = recordBytes (staging.records.insert residence head) + bytes := hbytes
      _ = recordBytes staging.records + (entryBytes head.key + bytes) := by
          rw [recordBytes_insert_of_none (hordered.getElem?_eq_none hbehind), hkey, Nat.add_assoc]

/-! ### Deltas -/

theorem map_eq_ok {result : Except String Int} {f : Int → Int} {delta : Int}
    (hmap : result.map f = .ok delta) : ∃ rest, result = .ok rest ∧ f rest = delta := by
  cases result with
  | error error => cases hmap
  | ok rest => exact ⟨rest, rfl, Except.ok.inj hmap⟩

theorem deltaBytes_cons {current : RecordMap} {entries : List (Residence × InventoryRecord)}
    {delta : Int} (hhere : records[residence]? = current[residence]?)
    (hkey : entryBytes record.key = entryBytes residence.1)
    (hdelta : deltaBytes current ((residence, record) :: entries) = .ok delta) :
    ∃ rest, deltaBytes current entries = .ok rest ∧
      (recordBytes (applyRecord records (residence, record)) : Int) + rest =
        recordBytes records + delta := by
  unfold deltaBytes at hdelta
  rw [← hhere, hkey] at hdelta
  cases hfound : records[residence]? with
  | some previous =>
    simp only [hfound] at hdelta
    split_ifs at hdelta with hold hconflict habsent
    · exact ⟨delta, hdelta, by simp [applyRecord, hfound, hold]⟩
    · obtain ⟨rest, hrest, rfl⟩ := map_eq_ok hdelta
      have herase := recordBytes_erase_of_some hfound
      simp only [Bool.not_eq_true'] at habsent
      exact ⟨rest, hrest, by simp [applyRecord, hfound, hold, habsent]; omega⟩
    · simp only [Bool.not_eq_true', Bool.not_eq_false] at habsent
      exact ⟨delta, hdelta, by
        simp [applyRecord, hfound, hold, habsent, recordBytes_insert_of_some]⟩
  | none =>
    simp only [hfound] at hdelta
    split_ifs at hdelta with hpresent
    · obtain ⟨rest, hrest, rfl⟩ := map_eq_ok hdelta
      exact ⟨rest, hrest, by
        simp [applyRecord, hfound, hpresent, recordBytes_insert_of_none]; omega⟩
    · exact ⟨delta, hdelta, by simp [applyRecord, hfound, hpresent, recordBytes_erase_of_none]⟩

/-- A delta charges what its records add, less what they free. The charge is computed from the
records before the delta; since a residence occurs once, they are those the loop finds. -/
theorem applyRecords_bytes {current : RecordMap} {entries : List (Residence × InventoryRecord)} :
    ∀ {records : RecordMap} {delta : Int},
      (entries.Pairwise fun a b => a.1 ≠ b.1) →
      (∀ entry ∈ entries, records[entry.1]? = current[entry.1]?) →
      (∀ entry ∈ entries, entry.2.key = entry.1.1) →
      deltaBytes current entries = .ok delta →
      (recordBytes (applyRecords records entries) : Int) = recordBytes records + delta := by
  induction entries with
  | nil =>
    intro records delta _ _ _ hdelta
    obtain rfl : 0 = delta := by simpa [deltaBytes] using hdelta
    exact (Int.add_zero _).symm
  | cons entry entries ih =>
    obtain ⟨residence, record⟩ := entry
    intro records delta hdistinct hsame hkeys hdelta
    obtain ⟨hfirst, hdistinct⟩ := List.pairwise_cons.mp hdistinct
    obtain ⟨rest, hrest, hcharge⟩ := deltaBytes_cons
      (hsame (residence, record) List.mem_cons_self)
      (congrArg entryBytes (hkeys (residence, record) List.mem_cons_self)) hdelta
    change (recordBytes (applyRecords (applyRecord records (residence, record)) entries) : Int) = _
    -- the rest of the loop finds the records it was charged for
    rw [ih hdistinct _ (fun e he => hkeys e (List.mem_cons_of_mem _ he)) hrest, hcharge]
    intro other hother
    rw [← hsame other (List.mem_cons_of_mem _ hother)]
    exact (keyedStep_applyRecord [(residence, record)]).other records residence record other.1
      List.mem_cons_self (hfirst other hother).symm

theorem validateDelta_bytes {current : RecordMap} {fromExclusive throughInclusive : Nat}
    {records : List InventoryRecord} {scope : InventoryScope} {delta : Int}
    {updates : List (Residence × InventoryRecord)}
    (hok : validateDelta current fromExclusive throughInclusive records scope =
      .ok (delta, updates)) :
    (recordBytes (applyRecords current updates) : Int) = recordBytes current + delta := by
  obtain ⟨hinterval, latest, hlatest, rfl, hlocated⟩ := validateDelta_ok hok
  rw [validateDelta, if_neg (Nat.not_le.mpr hinterval), hlatest] at hok
  have hdelta : deltaBytes current latest.toList = .ok delta := by
    cases hbytes : deltaBytes current latest.toList with
    | error error => simp [hbytes, Except.map] at hok
    | ok bytes =>
      simp only [hbytes, Except.map, Except.ok.injEq, Prod.mk.injEq] at hok
      rw [hok.1]
  apply applyRecords_bytes (distinct_fst_toList latest) (fun _ _ => rfl) _ hdelta
  rintro ⟨residence, record⟩ hentry
  obtain ⟨hresidence, -⟩ :=
    hlocated residence record (ExtTreeMap.mem_toList_iff_getElem?_eq_some.mp hentry)
  obtain ⟨metadata, -, rfl⟩ := Option.map_eq_some_iff.mp hresidence
  rfl

/-! ### Partial cleanup -/

theorem foldl_cleanupRecord_bytes (owner : Uuid) (residences : List Residence)
    (blocks : ExtTreeMap StateKey (List Entry)) (records : RecordMap) (bytes : Nat) :
    recordBytes (residences.foldl (View.cleanupRecord owner) (blocks, records, bytes)).2.1 +
        (residences.foldl (View.cleanupRecord owner) (blocks, records, bytes)).2.2 =
      recordBytes records + bytes := by
  induction residences generalizing blocks records bytes with
  | nil => rfl
  | cons residence residences ih =>
    rw [List.foldl_cons, View.cleanupRecord, ih]
    cases hfound : records[residence]? with
    | none =>
      have hcontains : records.contains residence = false := by
        rw [← ExtTreeMap.isSome_getElem?_eq_contains, hfound]
        rfl
      rw [recordBytes_erase_of_none hfound, hcontains]
      rfl
    | some previous =>
      have hcontains : records.contains residence = true := by
        rw [← ExtTreeMap.isSome_getElem?_eq_contains, hfound]
        rfl
      have herase := recordBytes_erase_of_some hfound
      dsimp only
      rw [hcontains, if_pos rfl]
      omega

end OrbitKV
