import OrbitKV.Proof.IndexBlocks

/-!
# Coherence of the global index

What the inverted map holds for an owner and a residence is the replica made of the record in that
owner's view, or nothing.
-/

namespace OrbitKV

open Std ExtTreeMap

variable {owner : Uuid} {view : View} {now : Nat}

/-! ### The invariant -/

def activeRecord (owners : ExtTreeMap Uuid OwnerView) (owner : Uuid) (residence : Residence) :
    Option InventoryRecord :=
  owners[owner]?.bind fun ownerView => ownerView.records[residence]?

/-- The inverted map is the projection of the owners' views. The records on either side of a
snapshot are advertised, and a view that is not retired belongs to an expected owner. -/
structure Coherent (localOwner : Uuid) (blocks : ExtTreeMap StateKey (List Entry))
    (owners : ExtTreeMap Uuid OwnerView) (staging : ExtTreeMap Uuid StagingView)
    (expected : ExtTreeSet Uuid) : Prop where
  projection : ∀ (owner : Uuid) (residence : Residence), slot blocks owner residence =
    ((activeRecord owners owner residence).bind (entryOf owner)).toList
  noEmpty : NoEmptyBlock blocks
  active : ∀ (owner : Uuid) (ownerView : OwnerView), owners[owner]? = some ownerView →
    Advertised ownerView.records ownerView.appliedSequence
  staged : ∀ (owner : Uuid) (stagingView : StagingView), staging[owner]? = some stagingView →
    Advertised stagingView.records (max stagingView.maxRecordSequence stagingView.replaySequence)
  admitted : ∀ (owner : Uuid) (ownerView : OwnerView), owners[owner]? = some ownerView →
    ownerView.retired = false → owner ∈ expected
  remote : localOwner ∉ expected

def View.Coherent (view : View) (localOwner : Uuid) : Prop :=
  OrbitKV.Coherent localOwner view.blocks view.owners view.staging view.expected

theorem activeRecord_of_getElem? {owners : ExtTreeMap Uuid OwnerView}
    {ownerView : OwnerView} (howner : owners[owner]? = some ownerView) (residence : Residence) :
    activeRecord owners owner residence = ownerView.records[residence]? := by
  simp [activeRecord, howner]

theorem activeRecord_insert_self (owners : ExtTreeMap Uuid OwnerView) (owner : Uuid)
    (ownerView : OwnerView) (residence : Residence) :
    activeRecord (owners.insert owner ownerView) owner residence =
      ownerView.records[residence]? := by
  simp [activeRecord]

theorem activeRecord_insert_other (owners : ExtTreeMap Uuid OwnerView) {owner' : Uuid}
    (hne : owner' ≠ owner) (ownerView : OwnerView) (residence : Residence) :
    activeRecord (owners.insert owner ownerView) owner' residence =
      activeRecord owners owner' residence := by
  simp [activeRecord, getElem?_insert, hne.symm]

theorem activeRecord_erase_self (owners : ExtTreeMap Uuid OwnerView) (owner : Uuid)
    (residence : Residence) : activeRecord (owners.erase owner) owner residence = none := by
  simp [activeRecord]

theorem activeRecord_erase_other (owners : ExtTreeMap Uuid OwnerView) {owner' : Uuid}
    (hne : owner' ≠ owner) (residence : Residence) :
    activeRecord (owners.erase owner) owner' residence = activeRecord owners owner' residence := by
  simp [activeRecord, getElem?_erase, hne.symm]

section Preservation

variable {localOwner : Uuid} {blocks : ExtTreeMap StateKey (List Entry)}
  {owners : ExtTreeMap Uuid OwnerView} {staging : ExtTreeMap Uuid StagingView}
  {expected : ExtTreeSet Uuid}

theorem coherent_empty (localOwner : Uuid) : View.empty.Coherent localOwner := by
  constructor <;> simp [View.empty, slot, activeRecord, NoEmptyBlock]

section

variable (hcoherent : Coherent localOwner blocks owners staging expected)
  {owner : Uuid} {ownerView : OwnerView}

include hcoherent

theorem Coherent.staging_subset
    {staging' : ExtTreeMap Uuid StagingView}
    (hsubset : ∀ (owner : Uuid) (stagingView : StagingView),
      staging'[owner]? = some stagingView → staging[owner]? = some stagingView) :
    Coherent localOwner blocks owners staging' expected :=
  { hcoherent with
    staged := fun owner stagingView hstaging =>
      hcoherent.staged owner stagingView (hsubset owner stagingView hstaging) }

theorem Coherent.staging_insert
    (owner : Uuid) {stagingView : StagingView}
    (hrecords : Advertised stagingView.records
      (max stagingView.maxRecordSequence stagingView.replaySequence)) :
    Coherent localOwner blocks owners (staging.insert owner stagingView) expected :=
  { hcoherent with
    staged := by
      intro owner' found hfound
      obtain ⟨rfl, rfl⟩ | ⟨-, hold⟩ := getElem?_insert_eq_some hfound
      · exact hrecords
      · exact hcoherent.staged owner' found hold }

/-- Every method that touches an owner replaces its view, and the blocks of no other owner. -/
theorem Coherent.owner_update {blocks' : ExtTreeMap StateKey (List Entry)} {ownerView' : OwnerView}
    (hself : ∀ residence, slot blocks' owner residence =
      (ownerView'.records[residence]?.bind (entryOf owner)).toList)
    (hother : ∀ owner' ≠ owner, ∀ residence,
      slot blocks' owner' residence = slot blocks owner' residence)
    (hnoEmpty : NoEmptyBlock blocks')
    (hrecords : Advertised ownerView'.records ownerView'.appliedSequence)
    (hadmitted : ownerView'.retired = false → owner ∈ expected) :
    Coherent localOwner blocks' (owners.insert owner ownerView') staging expected :=
  { hcoherent with
    projection := by
      intro owner' residence
      by_cases heq : owner' = owner
      · subst heq
        rw [hself, activeRecord_insert_self]
      · rw [hother owner' heq, activeRecord_insert_other _ heq, hcoherent.projection]
    noEmpty := hnoEmpty
    active := by
      intro owner' found hfound
      obtain ⟨rfl, rfl⟩ | ⟨-, hold⟩ := getElem?_insert_eq_some hfound
      · exact hrecords
      · exact hcoherent.active owner' found hold
    admitted := by
      intro owner' found hfound
      obtain ⟨rfl, rfl⟩ | ⟨-, hold⟩ := getElem?_insert_eq_some hfound
      · exact hadmitted
      · exact hcoherent.admitted owner' found hold }

theorem Coherent.slot_eq (howner : owners[owner]? = some ownerView) (residence : Residence) :
    slot blocks owner residence = (ownerView.records[residence]?.bind (entryOf owner)).toList := by
  rw [hcoherent.projection, activeRecord_of_getElem? howner]

theorem Coherent.owner_insert {ownerView' : OwnerView} (howner : owners[owner]? = some ownerView)
    (hrecords : ownerView'.records = ownerView.records)
    (happlied : ownerView'.appliedSequence = ownerView.appliedSequence)
    (hretired : ownerView'.retired = false → ownerView.retired = false) :
    Coherent localOwner blocks (owners.insert owner ownerView') staging expected := by
  refine hcoherent.owner_update ?_ (fun _ _ _ => rfl) hcoherent.noEmpty ?_
    (hcoherent.admitted _ _ howner ∘ hretired)
  · rw [hrecords]
    exact hcoherent.slot_eq howner
  · rw [hrecords, happlied]
    exact hcoherent.active _ ownerView howner

theorem Coherent.records_removed (howner : owners[owner]? = some ownerView)
    (ownerView' : OwnerView) (residences : List Residence)
    (hrecords : ∀ residence : Residence, ownerView'.records[residence]? =
      if residence ∈ residences then none else ownerView.records[residence]?)
    (happlied : ownerView'.appliedSequence = ownerView.appliedSequence)
    (hretired : ownerView'.retired = false → ownerView.retired = false) :
    Coherent localOwner (residences.foldl (removeBlock · owner) blocks)
      (owners.insert owner ownerView') staging expected := by
  refine hcoherent.owner_update (fun residence => ?_)
    (fun owner' hne => slot_foldl_removeBlock_other _ hne _)
    (hcoherent.noEmpty.foldl_removeBlock owner residences) ?_
    (hcoherent.admitted _ _ howner ∘ hretired)
  · rw [slot_foldl_removeBlock, hrecords, hcoherent.slot_eq howner]
    split <;> simp
  · rw [happlied]
    refine (hcoherent.active _ ownerView howner).of_subset fun residence record hrecord => ?_
    rw [hrecords] at hrecord
    split at hrecord
    · cases hrecord
    · exact hrecord

theorem Coherent.owner_erase
    (owner : Uuid) (hempty : ∀ residence, activeRecord owners owner residence = none) :
    Coherent localOwner blocks (owners.erase owner) staging expected :=
  { hcoherent with
    projection := by
      intro owner' residence
      rw [hcoherent.projection]
      by_cases heq : owner' = owner
      · subst heq
        rw [activeRecord_erase_self, hempty]
      · rw [activeRecord_erase_other _ heq]
    active := fun owner' found hfound =>
      hcoherent.active owner' found (getElem?_erase_eq_some hfound).2
    admitted := fun owner' found hfound =>
      hcoherent.admitted owner' found (getElem?_erase_eq_some hfound).2 }

theorem Coherent.owner_install (habsent : ∀ residence, activeRecord owners owner residence = none)
    (ownerView : OwnerView) (hrecords : Advertised ownerView.records ownerView.appliedSequence)
    (hexpected : owner ∈ expected) :
    Coherent localOwner (View.insertBlocks blocks owner ownerView.records)
      (owners.insert owner ownerView) staging expected := by
  refine hcoherent.owner_update (fun residence => ?_)
    (fun owner' hne _ => slot_insertBlocks_other _ hne hrecords _)
    (hcoherent.noEmpty.insertBlocks owner ownerView.records) hrecords fun _ => hexpected
  rw [slot_insertBlocks _ _ hrecords, hcoherent.projection, habsent]
  simp

theorem Coherent.owner_delta (howner : owners[owner]? = some ownerView)
    (ownerView' : OwnerView) {latest : RecordMap} {through : Nat}
    (hlocated : Located latest)
    (hinterval : ∀ (residence : Residence) (record : InventoryRecord),
      latest[residence]? = some record →
      ownerView.appliedSequence < record.sequence ∧ record.sequence ≤ through)
    (hthrough : ownerView.appliedSequence < through)
    (hrecords : ownerView'.records = applyRecords ownerView.records latest.toList)
    (happlied : ownerView'.appliedSequence = through)
    (hretired : ownerView'.retired = false → ownerView.retired = false) :
    Coherent localOwner (View.updateBlocks blocks owner latest.toList)
      (owners.insert owner ownerView') staging expected := by
  have hactive := hcoherent.active _ _ howner
  refine hcoherent.owner_update (fun residence => ?_)
    (fun owner' hne _ => slot_updateBlocks_other _ hne hlocated _)
    (hcoherent.noEmpty.updateBlocks owner latest.toList) ?_
    (hcoherent.admitted _ _ howner ∘ hretired)
  · rw [slot_updateBlocks _ _ hlocated, hrecords, getElem?_applyRecords, hcoherent.slot_eq howner]
    cases hlatest : latest[residence]? with
    | none => rfl
    | some record =>
      have hnewer : ∀ previous, ownerView.records[residence]? = some previous →
          previous.sequence ≤ record.sequence := by
        intro previous hprevious
        have hbound := hactive.sequence_le _ _ hprevious
        have hrecord := (hinterval residence record hlatest).1
        omega
      simp only [Option.elim_some, mergeRecord_of_newer hnewer, entriesAfter]
      split <;> rfl
  · rw [hrecords, happlied]
    exact hactive.applyRecords hthrough.le hlocated
      fun residence record hrecord => (hinterval residence record hrecord).2

end

end Preservation

/-! ### The methods -/

section Methods

variable {view : View} {localOwner : Uuid}

section

variable (hview : view.Coherent localOwner)

include hview

theorem View.Coherent.clearFresh (owner : Uuid) : (view.clearFresh owner).Coherent localOwner := by
  unfold View.clearFresh
  split
  · exact hview
  · next ownerView howner => exact hview.owner_insert howner rfl rfl id

theorem View.Coherent.markSyncing (owner : Uuid) : (view.markSyncing owner).Coherent localOwner :=
  hview.clearFresh owner

theorem View.Coherent.confirmProgress (owner viewId : Uuid) (appliedSequence : Nat) :
    (view.confirmProgress owner viewId appliedSequence).2.Coherent localOwner := by
  unfold View.confirmProgress
  split
  · exact hview
  next ownerView howner =>
  split
  · exact hview
  · exact hview.owner_insert howner rfl rfl id

theorem View.Coherent.dropStaging
    (retired : Uuid × StagingView) : (view.dropStaging retired).Coherent localOwner :=
  hview.staging_subset fun _ _ hfound => (getElem?_erase_eq_some hfound).2

theorem View.Coherent.removeStaging (owner : Uuid) :
    (view.removeStaging owner).Coherent localOwner := by
  unfold View.removeStaging
  split
  · exact hview
  · exact hview.dropStaging _

theorem View.Coherent.abortSnapshot (owner sessionId : Uuid) :
    (view.abortSnapshot owner sessionId).Coherent localOwner := by
  unfold View.abortSnapshot
  split
  · exact hview
  split
  · exact hview.dropStaging _
  · exact hview

theorem View.Coherent.beginSnapshot (byteLimit : Nat)
    (owner sessionId snapshotId viewId : Uuid) (startSequence : Nat) :
    (view.beginSnapshot byteLimit owner sessionId snapshotId viewId startSequence).2.Coherent
      localOwner := by
  unfold View.beginSnapshot
  split
  · exact hview
  split
  · exact hview
  have hcleared := hview.removeStaging owner
  simp only
  split
  · exact hcleared
  · refine View.Coherent.clearFresh ?_ owner
    exact hcleared.staging_insert owner (Advertised.empty _)

end

theorem advertised_stagePage {staging : StagingView} {updates : List (Residence × InventoryRecord)}
    (hvalid : ∀ update ∈ updates, update.2.residence? = some update.1 ∧ update.2.present = true)
    (hstaging : Advertised staging.records (max staging.maxRecordSequence staging.replaySequence)) :
    Advertised (View.stagePage staging updates).records
      (max (View.stagePage staging updates).maxRecordSequence
        (View.stagePage staging updates).replaySequence) := by
  unfold View.stagePage
  induction updates generalizing staging with
  | nil => exact hstaging
  | cons update updates ih =>
    obtain ⟨hresidence, hpresent⟩ := hvalid update List.mem_cons_self
    refine ih (fun update' hmem => hvalid update' (List.mem_cons_of_mem _ hmem)) ?_
    exact (hstaging.mono (by simp only; omega)).insert hresidence hpresent (by simp only; omega)

section

variable (hview : view.Coherent localOwner)

include hview

theorem View.Coherent.applySnapshotPage (scope : InventoryScope) (byteLimit : Nat)
    (owner sessionId snapshotId : Uuid) (pageNumber : Nat) (records : List InventoryRecord) :
    (view.applySnapshotPage scope byteLimit owner sessionId snapshotId pageNumber
      records).2.Coherent localOwner := by
  unfold View.applySnapshotPage
  split
  · exact hview
  next staging hstaging =>
  iterate 4
    split
    · exact hview
  next additional updates hupdates =>
  split
  · exact hview
  · exact Coherent.staging_insert hview owner
      (advertised_stagePage (validatePage_ok hupdates).2 (hview.staged owner staging hstaging))

theorem View.Coherent.applySnapshotDelta
    (scope : InventoryScope) (byteLimit : Nat) (owner sessionId : Uuid)
    (fromExclusive throughInclusive : Nat) (records : List InventoryRecord) :
    (view.applySnapshotDelta scope byteLimit owner sessionId fromExclusive throughInclusive
      records).2.Coherent localOwner := by
  unfold View.applySnapshotDelta
  split
  · exact hview
  next staging hstaging =>
  split
  · exact hview
  next hcontiguous =>
  split
  · exact hview
  next delta updates hdelta =>
  split
  · exact hview
  obtain ⟨hinterval, latest, -, rfl, hlatest⟩ := validateDelta_ok hdelta
  have hreplay : staging.replaySequence = fromExclusive := by
    by_contra hne
    exact hcontiguous (.inr hne)
  have hrecords : Advertised (applyRecords staging.records latest.toList)
      (max staging.maxRecordSequence throughInclusive) :=
    (hview.staged owner staging hstaging).applyRecords (by omega)
      (fun residence record hrecord => (hlatest residence record hrecord).1)
      fun residence record hrecord => by
        have := (hlatest residence record hrecord).2.2
        omega
  simp only
  split
  · exact Coherent.staging_insert hview owner hrecords
  split
  · exact Coherent.staging_insert (Coherent.staging_insert hview owner hrecords) owner hrecords
  split
  · exact Coherent.staging_insert (Coherent.staging_insert hview owner hrecords) owner hrecords
  · exact Coherent.staging_insert (Coherent.staging_insert hview owner hrecords) owner hrecords

theorem View.Coherent.removeActiveOwner (owner : Uuid) :
    (view.removeActiveOwner owner).Coherent localOwner ∧
      ∀ residence, activeRecord (view.removeActiveOwner owner).owners owner residence = none := by
  unfold View.removeActiveOwner
  split
  next hnone => exact ⟨hview, fun residence => by simp [activeRecord, hnone]⟩
  next previous hprevious =>
  refine ⟨?_, fun residence => activeRecord_erase_self view.owners owner residence⟩
  -- the loop empties the view's records before the view itself goes
  have hemptied := Coherent.records_removed hview hprevious { previous with records := ∅ }
    previous.records.keys
    (fun residence => by
      split
      · simp
      · next hnotin =>
        rw [mem_keys] at hnotin
        simp [getElem?_eq_none hnotin]) rfl id
  have herased := hemptied.owner_erase owner (fun residence => by simp [activeRecord_insert_self])
  have howners : (view.owners.insert owner { previous with records := ∅ }).erase owner =
      view.owners.erase owner := by
    apply ext_getElem?
    intro owner'
    simp only [getElem?_erase, getElem?_insert]
    split <;> rfl
  rw [howners] at herased
  exact herased

theorem View.Coherent.commitSnapshot (admitted : Bool)
    (owner sessionId snapshotId viewId : Uuid) (throughSequence pageCount : Nat) :
    (view.commitSnapshot admitted owner sessionId snapshotId viewId throughSequence
      pageCount).2.Coherent localOwner := by
  unfold View.commitSnapshot
  split
  · exact hview
  next staging hstaging =>
  split
  · exact hview
  next hcomplete =>
  split
  · exact hview.dropStaging _
  next hadmitted =>
  have hdropped : View.Coherent { view with staging := view.staging.erase owner } localOwner :=
    hview.staging_subset fun _ _ hfound => (getElem?_erase_eq_some hfound).2
  obtain ⟨hcleared, habsent⟩ := hdropped.removeActiveOwner owner
  simp only [Bool.or_eq_true, Bool.not_eq_true', not_or, Bool.not_eq_false] at hadmitted
  have hexpected : owner ∈ view.expected := ExtTreeSet.mem_iff_contains.mpr hadmitted.1
  have hexpected' : ∀ v : View, (v.removeActiveOwner owner).expected = v.expected := by
    intro v
    unfold View.removeActiveOwner
    split <;> rfl
  refine Coherent.owner_install hcleared habsent (View.committedView staging throughSequence) ?_
    (by rwa [hexpected'])
  refine (hview.staged owner staging hstaging).mono ?_
  simp only [View.committedView]
  omega

theorem View.Coherent.applyDelta (scope : InventoryScope) (byteLimit : Nat) (owner viewId : Uuid)
    (fromExclusive throughInclusive : Nat) (records : List InventoryRecord) :
    (view.applyDelta scope byteLimit owner viewId fromExclusive throughInclusive
      records).2.Coherent localOwner := by
  unfold View.applyDelta
  split
  · exact hview
  next ownerView howner =>
  iterate 5
    split
    · exact hview
  next delta updates hdelta =>
  split
  · exact hview
  obtain ⟨hinterval, latest, -, rfl, hlatest⟩ := validateDelta_ok hdelta
  have hupdated := fun ownerView' => Coherent.owner_delta hview howner ownerView'
    (fun residence record hrecord => (hlatest residence record hrecord).1)
    (fun residence record hrecord => ⟨by
      have := (hlatest residence record hrecord).2.1
      omega, (hlatest residence record hrecord).2.2⟩)
    (by omega)
  simp only
  split
  · exact hupdated _ rfl rfl id
  split
  · exact hupdated _ rfl rfl id
  · exact hupdated _ rfl rfl id

theorem View.Coherent.retireOwner (owner : Uuid) :
    (view.retireOwner owner).Coherent localOwner := by
  have hcleared := hview.removeStaging owner
  unfold View.retireOwner
  simp only
  split
  · exact hcleared
  · next ownerView howner =>
    exact Coherent.owner_insert hcleared howner rfl rfl fun hfalse => by cases hfalse

end

theorem foldl_cleanupRecord (owner : Uuid) (residences : List Residence)
    (blocks : ExtTreeMap StateKey (List Entry)) (records : RecordMap) (bytes : Nat) :
    (residences.foldl (View.cleanupRecord owner) (blocks, records, bytes)).1 =
        residences.foldl (removeBlock · owner) blocks ∧
      ∀ residence : Residence,
        (residences.foldl (View.cleanupRecord owner)
          (blocks, records, bytes)).2.1[residence]? =
          if residence ∈ residences then none else records[residence]? := by
  induction residences generalizing blocks records bytes with
  | nil => simp
  | cons head residences ih =>
    simp only [List.foldl_cons, View.cleanupRecord]
    obtain ⟨hblocks, hrecords⟩ := ih (removeBlock blocks owner head) (records.erase head) _
    refine ⟨hblocks, fun residence => ?_⟩
    rw [hrecords]
    by_cases hhead : residence = head
    · simp [hhead]
    · simp [hhead, getElem?_erase, Ne.symm hhead]

theorem View.Coherent.cleanupOwner (hview : view.Coherent localOwner) (owner : Uuid)
    (limit : Nat) : (view.cleanupOwner owner limit).2.Coherent localOwner := by
  unfold View.cleanupOwner
  split
  · exact hview
  next ownerView howner =>
  split
  · exact hview
  simp only
  obtain ⟨hblocks, hrecords⟩ := foldl_cleanupRecord owner
    (ownerView.records.keys.take (max limit 1)) view.blocks ownerView.records 0
  generalize hcleaned : (ownerView.records.keys.take (max limit 1)).foldl
    (View.cleanupRecord owner) (view.blocks, ownerView.records, 0) = cleaned at hblocks hrecords ⊢
  have htrimmed := Coherent.records_removed hview howner
    { ownerView with records := cleaned.2.1 }
    (ownerView.records.keys.take (max limit 1)) hrecords rfl id
  rw [← hblocks] at htrimmed
  split
  next hempty =>
    refine Coherent.owner_erase htrimmed owner fun residence => ?_
    rw [ExtTreeMap.isEmpty_iff] at hempty
    simp [activeRecord_insert_self, hempty]
  · exact htrimmed

theorem View.blocks_dropUnexpected (view : View) (expected : ExtTreeSet Uuid) :
    (view.dropUnexpected expected).blocks = view.blocks := by
  unfold View.dropUnexpected
  refine foldl_observe View.blocks (fun _ _ _ => ?_) view
  rfl

theorem View.owners_dropUnexpected (view : View) (expected : ExtTreeSet Uuid) :
    (view.dropUnexpected expected).owners = view.owners := by
  unfold View.dropUnexpected
  refine foldl_observe View.owners (fun _ _ _ => ?_) view
  rfl

theorem View.staging_dropUnexpected_subset (view : View) (expected : ExtTreeSet Uuid)
    (owner : Uuid) (staging : StagingView)
    (hstaging : (view.dropUnexpected expected).staging[owner]? = some staging) :
    view.staging[owner]? = some staging := by
  unfold View.dropUnexpected at hstaging
  generalize view.staging.toList.filter (fun entry => !expected.contains entry.1) = retired
    at hstaging
  induction retired generalizing view with
  | nil => exact hstaging
  | cons entry retired ih => exact (getElem?_erase_eq_some (ih (view.dropStaging entry) hstaging)).2

theorem getElem?_retireUnexpected {owners : ExtTreeMap Uuid OwnerView}
    {expected : ExtTreeSet Uuid} {owner : Uuid} {ownerView' : OwnerView}
    (howner : (View.retireUnexpected owners expected)[owner]? = some ownerView') :
    ∃ ownerView : OwnerView, owners[owner]? = some ownerView ∧
      ownerView'.records = ownerView.records ∧
      ownerView'.appliedSequence = ownerView.appliedSequence ∧
      (ownerView'.retired = false → owner ∈ expected) := by
  rw [View.retireUnexpected, getElem?_map, Option.map_eq_some_iff] at howner
  obtain ⟨ownerView, howner, rfl⟩ := howner
  refine ⟨ownerView, howner, ?_⟩
  split
  next hcontains => exact ⟨rfl, rfl, fun _ => ExtTreeSet.mem_iff_contains.mpr hcontains⟩
  · exact ⟨rfl, rfl, fun hfalse => by cases hfalse⟩

theorem activeRecord_retireUnexpected (owners : ExtTreeMap Uuid OwnerView)
    (expected : ExtTreeSet Uuid) (owner : Uuid) (residence : Residence) :
    activeRecord (View.retireUnexpected owners expected) owner residence =
      activeRecord owners owner residence := by
  rw [activeRecord, activeRecord, View.retireUnexpected, getElem?_map]
  cases owners[owner]? with
  | none => rfl
  | some ownerView =>
    simp only [Option.map_some, Option.bind_some]
    split <;> rfl

theorem View.Coherent.setExpectedOwners (hview : view.Coherent localOwner) (revision : Int)
    (owners : List Uuid) :
    (view.setExpectedOwners localOwner revision owners).Coherent localOwner := by
  unfold View.setExpectedOwners
  simp only
  split
  · exact hview
  generalize hexpected : ExtTreeSet.ofList (owners.filter (· ≠ localOwner)) = expected
  have hsubset := View.staging_dropUnexpected_subset
    { view with owners := View.retireUnexpected view.owners expected } expected
  have hblocks := View.blocks_dropUnexpected
    { view with owners := View.retireUnexpected view.owners expected } expected
  have howners := View.owners_dropUnexpected
    { view with owners := View.retireUnexpected view.owners expected } expected
  unfold View.Coherent View.bump View.refreshCoverageCounts
  rw [hblocks, howners]
  exact
    { projection := fun owner residence => by
        rw [activeRecord_retireUnexpected, hview.projection]
      noEmpty := hview.noEmpty
      active := fun owner ownerView' hfound => by
        obtain ⟨ownerView, howner, hrecords, happlied, -⟩ := getElem?_retireUnexpected hfound
        rw [hrecords, happlied]
        exact hview.active owner ownerView howner
      staged := fun owner staging hfound => hview.staged owner staging (hsubset owner staging hfound)
      admitted := fun owner ownerView' hfound hactive => by
        obtain ⟨-, -, -, -, hadmitted⟩ := getElem?_retireUnexpected hfound
        exact hadmitted hactive
      remote := by
        rw [← hexpected, ExtTreeSet.mem_ofList]
        simp }

end Methods

/-! ### Every reachable index -/

theorem GlobalIndex.owner_call (index : GlobalIndex) (now : Nat) (call : IndexCall) :
    (index.call now call).membership.owner = index.membership.owner := by
  cases call with
  | membership change =>
    cases change with
    | renew sentAt ttl =>
      simp only [GlobalIndex.call, MembershipView.call, MembershipView.renew]
      split <;> rfl
    | _ => rfl
  | _ => rfl

variable {index : GlobalIndex} {replica : ReplicaLocation}

theorem View.Coherent.call (hindex : index.view.Coherent index.membership.owner.incarnation)
    (now : Nat) (call : IndexCall) :
    (index.viewAfter now call).Coherent index.membership.owner.incarnation := by
  cases call with
  | setExpectedOwners revision owners => exact hindex.setExpectedOwners revision owners
  | markSyncing owner => exact hindex.markSyncing owner
  | confirmProgress owner viewId applied => exact hindex.confirmProgress owner viewId applied
  | beginSnapshot owner session snapshot viewId start =>
    exact hindex.beginSnapshot _ owner session snapshot viewId start
  | applySnapshotPage owner session snapshot page records =>
    exact hindex.applySnapshotPage _ _ owner session snapshot page records
  | applySnapshotDelta owner session fromExclusive through records =>
    exact hindex.applySnapshotDelta _ _ owner session fromExclusive through records
  | commitSnapshot owner session snapshot viewId through pages =>
    exact hindex.commitSnapshot _ owner session snapshot viewId through pages
  | abortSnapshot owner session => exact hindex.abortSnapshot owner session
  | applyDelta owner viewId fromExclusive through records =>
    exact hindex.applyDelta _ _ owner viewId fromExclusive through records
  | retireOwner owner => exact hindex.retireOwner owner
  | cleanupOwner owner limit => exact hindex.cleanupOwner owner limit
  | reset => exact coherent_empty _
  | membership change => exact hindex

theorem reachable_new (membership : MembershipView) (byteLimit : Nat) (scope : InventoryScope) :
    indexMachine.Reachable (GlobalIndex.new membership byteLimit scope) :=
  Machine.Reachable.of_init (M := indexMachine) rfl

theorem reachable_calls (hreach : indexMachine.Reachable index) (calls : List (Nat × IndexCall)) :
    indexMachine.Reachable (calls.foldl (fun index label => index.call label.1 label.2) index) :=
  List.foldlRecOn calls _ hreach fun _ hindex _ _ => hindex.step rfl

theorem coherent_of_reachable (hreach : indexMachine.Reachable index) :
    index.view.Coherent index.membership.owner.incarnation := by
  refine hreach.invariant
    (I := fun index => index.view.Coherent index.membership.owner.incarnation) ?_ ?_
  · intro index hinit
    rw [show index.view = View.empty from hinit]
    exact coherent_empty _
  · rintro index label _ hindex rfl
    rw [GlobalIndex.owner_call]
    exact hindex.call label.1 label.2

/-! ### Lookups -/

theorem mem_collectReplicas {membership : MembershipView} {entries : List Entry} :
    ∀ {found : Nat}, replica ∈ view.collectReplicas membership now entries found →
      ∃ entry ∈ entries, view.admittedReplica membership now entry = some replica := by
  induction entries with
  | nil => intro found hmem; cases hmem
  | cons entry entries ih =>
    intro found hmem
    unfold View.collectReplicas at hmem
    simp only at hmem
    have hhead : replica ∈ (view.admittedReplica membership now entry).toList →
        ∃ e ∈ entry :: entries, view.admittedReplica membership now e = some replica :=
      fun h => ⟨entry, List.mem_cons_self, Option.mem_toList.mp h⟩
    split at hmem
    · exact hhead hmem
    · rcases List.mem_append.mp hmem with hmem | hmem
      · exact hhead hmem
      · obtain ⟨e, he, hreplica⟩ := ih hmem
        exact ⟨e, List.mem_cons_of_mem _ he, hreplica⟩

theorem admittedReplica_eq_some {membership : MembershipView} {entry : Entry}
    (hreplica : view.admittedReplica membership now entry = some replica) :
    membership.resolve now entry.owner = some replica.owner ∧
      entry.owner ≠ membership.owner.incarnation ∧
      (∃ ownerView : OwnerView, view.owners[entry.owner]? = some ownerView ∧
        ownerView.retired = false) ∧
      entry.sequence = replica.sequence ∧ entry.metadata = replica.metadata := by
  unfold View.admittedReplica at hreplica
  split at hreplica
  · cases hreplica
  next owner hresolve =>
  split at hreplica
  next hadmitted =>
    cases hreplica
    have howner := MembershipView.incarnation_of_resolve hresolve
    refine ⟨hresolve, howner ▸ hadmitted.1, ?_, rfl, rfl⟩
    cases hview : view.owners[entry.owner]? with
    | none => simp [hview] at hadmitted
    | some ownerView => exact ⟨ownerView, rfl, by simpa [hview] using hadmitted.2⟩
  · cases hreplica

/-- The inverted map holds one replica for an owner, a key and a medium when the owner's view holds
a record there, with that record's sequence and metadata, and none otherwise. -/
def GlobalIndex.BlocksProjectOwners (index : GlobalIndex) : Prop :=
  (∀ (owner : Uuid) (key : StateKey) (medium : ReplicaMedium),
    match activeRecord index.view.owners owner (key, medium) with
    | none => slot index.view.blocks owner (key, medium) = []
    | some record => ∃ metadata, record.metadata = some metadata ∧ metadata.medium = medium ∧
        slot index.view.blocks owner (key, medium) = [⟨owner, record.sequence, metadata⟩]) ∧
  ∀ (key : StateKey) (entries : List Entry), index.view.blocks[key]? = some entries → entries ≠ []

/-- A replica any lookup returns is a record of its owner's view, and the owner is expected,
admitted by the membership at that instant, not local and not retired. -/
def GlobalIndex.LookupsAdmitted (index : GlobalIndex) : Prop :=
  ∀ (now : Nat) (keys : List StateKey) (candidates : BlockCandidates) (replica : ReplicaLocation),
    candidates ∈ index.lookup now keys → replica ∈ candidates.replicas →
      (∃ (ownerView : OwnerView) (record : InventoryRecord),
        index.view.owners[replica.owner.incarnation]? = some ownerView ∧
        ownerView.retired = false ∧
        ownerView.records[(candidates.key, replica.metadata.medium)]? = some record ∧
        record.sequence = replica.sequence ∧ record.metadata = some replica.metadata) ∧
      replica.owner.incarnation ∈ index.view.expected ∧
      index.membership.resolve now replica.owner.incarnation = some replica.owner ∧
      replica.owner.incarnation ≠ index.membership.owner.incarnation

theorem View.Coherent.blocksProjectOwners {localOwner : Uuid}
    (hindex : index.view.Coherent localOwner) : index.BlocksProjectOwners := by
  refine ⟨fun owner key medium => ?_, hindex.noEmpty⟩
  have hslot := hindex.projection owner (key, medium)
  split
  next hnone => simpa [hnone] using hslot
  next record hrecord =>
    cases hview : index.view.owners[owner]? with
    | none => simp [activeRecord, hview] at hrecord
    | some ownerView =>
      rw [activeRecord_of_getElem? hview] at hrecord
      have hresidence := (hindex.active owner ownerView hview).residence _ _ hrecord
      obtain ⟨metadata, hmetadata, hmedium⟩ := Option.map_eq_some_iff.mp hresidence
      refine ⟨metadata, hmetadata, congrArg Prod.snd hmedium, ?_⟩
      rw [hslot, activeRecord_of_getElem? hview, hrecord]
      simp [entryOf, hmetadata]

theorem View.Coherent.exists_record {localOwner : Uuid}
    (hview : view.Coherent localOwner) {key : StateKey} {entries : List Entry}
    (hentries : view.blocks[key]? = some entries) {entry : Entry} (hentry : entry ∈ entries) :
    ∃ record, activeRecord view.owners entry.owner (key, entry.metadata.medium) = some record ∧
      record.sequence = entry.sequence ∧ record.metadata = some entry.metadata := by
  have hmem : entry ∈ slot view.blocks entry.owner (key, entry.metadata.medium) := by
    simp [slot, hentries, hentry]
  rw [hview.projection, Option.mem_toList, Option.bind_eq_some_iff] at hmem
  obtain ⟨record, hrecord, hmap⟩ := hmem
  obtain ⟨metadata, hmetadata, hentry⟩ := Option.map_eq_some_iff.mp hmap
  refine ⟨record, hrecord, congrArg Entry.sequence hentry, ?_⟩
  rw [hmetadata, ← congrArg Entry.metadata hentry]

theorem GlobalIndex.exists_entry_of_lookup {keys : List StateKey} {candidates : BlockCandidates}
    (hcandidates : candidates ∈ index.lookup now keys) (hreplica : replica ∈ candidates.replicas) :
    ∃ entries, index.view.blocks[candidates.key]? = some entries ∧
      ∃ entry ∈ entries, index.view.admittedReplica index.membership now entry = some replica := by
  unfold GlobalIndex.lookup at hcandidates
  obtain ⟨key, -, rfl⟩ := List.mem_map.mp hcandidates
  unfold GlobalIndex.lookupKey at hreplica ⊢
  split at hreplica
  · simp at hreplica
  split at hreplica
  · next entries hentries =>
    split at hreplica
    · obtain ⟨medium, -, hmem⟩ := List.mem_flatMap.mp hreplica
      obtain ⟨entry, hentry, hadmitted⟩ := mem_collectReplicas hmem
      refine ⟨entries, ?_, entry, List.mem_of_mem_filter hentry, hadmitted⟩
      simp_all
    · simp at hreplica
  · simp at hreplica

theorem View.Coherent.lookupsAdmitted
    (hindex : index.view.Coherent index.membership.owner.incarnation) : index.LookupsAdmitted := by
  intro now keys candidates replica hcandidates hreplica
  obtain ⟨entries, hentries, entry, hentry, hadmitted⟩ :=
    GlobalIndex.exists_entry_of_lookup hcandidates hreplica
  obtain ⟨hresolve, hremote, ⟨ownerView, howner, hactive⟩, hsequence, hmetadata⟩ :=
    admittedReplica_eq_some hadmitted
  obtain ⟨record, hrecord, hrecordSequence, hrecordMetadata⟩ := hindex.exists_record hentries hentry
  have hincarnation : replica.owner.incarnation = entry.owner :=
    MembershipView.incarnation_of_resolve hresolve
  rw [activeRecord_of_getElem? howner] at hrecord
  rw [hincarnation, ← hsequence, ← hmetadata]
  exact ⟨⟨ownerView, record, howner, hactive, hrecord, hrecordSequence, hrecordMetadata⟩,
    hindex.admitted entry.owner ownerView howner hactive, hresolve, hremote⟩

/-- **Coherence.** In every index reachable by any calls, the inverted map is the projection of the
owners' views, and no lookup returns a replica outside them or of an owner that is not admitted. -/
theorem index_coherent {index : GlobalIndex} (hreach : indexMachine.Reachable index) :
    index.BlocksProjectOwners ∧ index.LookupsAdmitted :=
  ⟨(coherent_of_reachable hreach).blocksProjectOwners,
    (coherent_of_reachable hreach).lookupsAdmitted⟩

/-- An index that has followed the snapshot of one remote owner with one resident. -/
def followedIndex : GlobalIndex :=
  let remote : CacheOwner := ⟨"peer:7000", 2⟩
  let self : CacheOwner := ⟨"self:7000", 1⟩
  let record : InventoryRecord := ⟨⟨"ns", [7]⟩, 1, true, some ⟨.dram, .raw, some 64⟩⟩
  [(0, .membership (.renew 0 100)),
    (1, .membership (.replaceMembers [("a", self), ("b", remote)])),
    (2, .setExpectedOwners 1 [1, 2]),
    (3, .beginSnapshot 2 5 6 7 1),
    (4, .applySnapshotPage 2 5 6 0 [record]),
    (5, .commitSnapshot 2 5 6 7 1 1)].foldl
    (fun index label => index.call label.1 label.2)
    (GlobalIndex.new (.new self) 10000 .allNamespaces)

theorem index_coherent_followed :
    (followedIndex.lookup 6 [⟨"ns", [7]⟩]).map (·.replicas) =
        [[⟨⟨"peer:7000", 2⟩, 1, ⟨.dram, .raw, some 64⟩⟩]] ∧
      followedIndex.BlocksProjectOwners ∧ followedIndex.LookupsAdmitted :=
  ⟨by decide +kernel, index_coherent (reachable_calls (reachable_new _ _ _) _)⟩

end OrbitKV
