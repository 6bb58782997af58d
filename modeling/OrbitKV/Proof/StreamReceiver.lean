import OrbitKV.Proof.IndexCoherence
import OrbitKV.Proof.StreamSource

/-!
# What the receiver makes of the frames

The receiver's calls turn the view and the staging for the source as the ideal receiver turns its
mode; other calls leave both alone or drop them.
-/

namespace OrbitKV

open Std GlobalIndex View

variable {source : Uuid}

/-! ### The installed view and the staged snapshot -/

def OwnerView.shown (ownerView : OwnerView) : Option (Uuid × Nat × RecordMap) :=
  if ownerView.retired then none
  else some (ownerView.viewId, ownerView.appliedSequence, ownerView.records)

def View.shown (view : View) (owner : Uuid) : Option (Uuid × Nat × RecordMap) :=
  view.owners[owner]?.bind OwnerView.shown

theorem View.ownerWatermark_eq (view : View) (owner : Uuid) :
    view.ownerWatermark owner = (view.shown owner).map fun shown => (shown.1, shown.2.1) := by
  unfold ownerWatermark shown
  cases view.owners[owner]? with
  | none => rfl
  | some ownerView =>
    cases hretired : ownerView.retired <;> simp [OwnerView.shown, hretired]

structure Spared (source : Uuid) (view view' : View) : Prop where
  shown : ∀ shown, view'.shown source = some shown → view.shown source = some shown
  staging : ∀ staging, view'.staging[source]? = some staging → view.staging[source]? = some staging

theorem Spared.of_eq {view view' : View} (howners : view'.owners[source]? = view.owners[source]?)
    (hstaging : view'.staging[source]? = view.staging[source]?) : Spared source view view' where
  shown shown hshown := by rwa [View.shown, howners] at hshown
  staging staging hfound := by rwa [hstaging] at hfound

theorem Spared.trans {view₁ view₂ view₃ : View} (h₁ : Spared source view₁ view₂)
    (h₂ : Spared source view₂ view₃) : Spared source view₁ view₃ where
  shown shown hshown := h₁.shown shown (h₂.shown shown hshown)
  staging staging hfound := h₁.staging staging (h₂.staging staging hfound)

theorem Spared.owner_insert {owner : Uuid} {view view' : View} {ownerView : OwnerView}
    (howners : view'.owners = view.owners.insert owner ownerView)
    (hstaging : view'.staging = view.staging)
    (hshown : ownerView.shown = none ∨ ownerView.shown = view.shown owner) :
    Spared source view view' where
  shown shown hfound := by
    rw [View.shown, howners, ExtTreeMap.getElem?_insert] at hfound
    split at hfound
    case isTrue heq =>
      obtain rfl := compare_eq_iff_eq.mp heq
      rw [Option.bind_some] at hfound
      rcases hshown with hnone | hsame
      · rw [hnone] at hfound
        cases hfound
      · exact hsame ▸ hfound
    case isFalse => exact hfound
  staging staging hfound := by rwa [hstaging] at hfound

section Spared

variable {source : Uuid} {view : View}

theorem Spared.refl : Spared source view view := .of_eq rfl rfl

variable (owner : Uuid)

theorem spared_clearFresh : Spared source view (view.clearFresh owner) := by
  unfold clearFresh
  split
  · exact .refl
  · next ownerView howner =>
    exact .owner_insert rfl rfl (.inr (by simp [shown, howner, OwnerView.shown]))

theorem spared_markSyncing : Spared source view (view.markSyncing owner) :=
  (spared_clearFresh owner).trans (.of_eq rfl rfl)

theorem spared_confirmProgress (viewId : Uuid) (applied : Nat) :
    Spared source view (view.confirmProgress owner viewId applied).2 := by
  unfold confirmProgress
  split
  · exact .refl
  next ownerView howner =>
  split
  · exact .refl
  · exact .owner_insert rfl rfl (.inr (by simp [shown, howner, OwnerView.shown]))

theorem spared_dropStaging (retired : Uuid × StagingView) :
    Spared source view (view.dropStaging retired) where
  shown _ hshown := hshown
  staging _ hfound := (getElem?_erase_eq_some hfound).2

theorem spared_removeStaging : Spared source view (view.removeStaging owner) := by
  unfold removeStaging
  split
  · exact .refl
  · exact spared_dropStaging _

theorem spared_abortSnapshot (sessionId : Uuid) :
    Spared source view (view.abortSnapshot owner sessionId) := by
  unfold abortSnapshot
  split
  · exact .refl
  split
  · exact (spared_dropStaging _).trans (.of_eq rfl rfl)
  · exact .refl

theorem spared_retireOwner : Spared source view (view.retireOwner owner) := by
  unfold retireOwner
  refine (spared_removeStaging owner).trans ?_
  simp only
  split
  · exact .of_eq rfl rfl
  · exact .owner_insert rfl rfl (.inl rfl)

theorem spared_cleanupOwner (limit : Nat) :
    Spared source view (view.cleanupOwner owner limit).2 := by
  unfold cleanupOwner
  split
  · exact .refl
  next ownerView howner =>
  split
  · exact .refl
  next hretired =>
  simp only
  generalize (ownerView.records.keys.take (max limit 1)).foldl (cleanupRecord owner)
    (view.blocks, ownerView.records, 0) = trimmed
  have htrimmed : Spared source view { view with
      blocks := trimmed.1
      owners := view.owners.insert owner { ownerView with records := trimmed.2.1 } } :=
    .owner_insert rfl rfl (.inl (by simpa [OwnerView.shown] using hretired))
  split
  · refine htrimmed.trans ⟨fun shown hshown => ?_, fun _ hfound => hfound⟩
    obtain ⟨ownerView', hfound, hshown⟩ := Option.bind_eq_some_iff.mp hshown
    exact Option.bind_eq_some_iff.mpr ⟨ownerView', (getElem?_erase_eq_some hfound).2, hshown⟩
  · exact htrimmed.trans (.of_eq rfl rfl)

theorem spared_setExpectedOwners (localOwner : Uuid) (revision : Int) (owners : List Uuid) :
    Spared source view (view.setExpectedOwners localOwner revision owners) := by
  unfold setExpectedOwners
  simp only
  split
  · exact .refl
  generalize ExtTreeSet.ofList (owners.filter (· ≠ localOwner)) = expected
  have howners := owners_dropUnexpected
    { view with owners := retireUnexpected view.owners expected } expected
  constructor
  · intro shown hshown
    obtain ⟨ownerView', hfound, hshown⟩ := Option.bind_eq_some_iff.mp hshown
    unfold bump refreshCoverageCounts at hfound
    rw [howners, retireUnexpected, ExtTreeMap.getElem?_map, Option.map_eq_some_iff] at hfound
    obtain ⟨ownerView, howner, rfl⟩ := hfound
    split at hshown
    · exact Option.bind_eq_some_iff.mpr ⟨ownerView, howner, hshown⟩
    · simp [OwnerView.shown] at hshown
  · exact staging_dropUnexpected_subset
      { view with owners := retireUnexpected view.owners expected } expected source

end Spared

/-! ### The receiver's calls -/

section Calls

variable (source : Uuid) (view : View) (scope : InventoryScope) (byteLimit : Nat)
  (owner sessionId snapshotId viewId : Uuid)
  {result : Except String Unit} {view' : View}

theorem View.staging_clearFresh : (view.clearFresh owner).staging = view.staging := by
  unfold clearFresh
  split <;> rfl

theorem beginSnapshot_cases (startSequence : Nat)
    (hresult : view.beginSnapshot byteLimit owner sessionId snapshotId viewId startSequence =
      (result, view')) :
    (∀ shown, view'.shown source = some shown → view.shown source = some shown) ∧
      (source ≠ owner → Spared source view view') ∧
      (result = .ok () → view'.staging[owner]? =
        some (freshStaging sessionId snapshotId viewId startSequence)) := by
  unfold beginSnapshot at hresult
  split at hresult
  · cases hresult
    exact ⟨fun _ => id, fun _ => .refl, nofun⟩
  split at hresult
  · cases hresult
    exact ⟨fun _ => id, fun _ => .refl, nofun⟩
  have hcleared : Spared source view (view.removeStaging owner) := spared_removeStaging owner
  simp only at hresult
  split at hresult
  · cases hresult
    exact ⟨hcleared.shown, fun _ => hcleared, nofun⟩
  obtain ⟨-, rfl⟩ := Prod.mk.inj hresult
  have hfresh : ∀ staged : View, Spared source staged (staged.clearFresh owner).bump :=
    fun _ => spared_markSyncing owner
  refine ⟨fun shown hshown => ?_, fun hne => hcleared.trans (.trans ?_ (hfresh _)), fun _ => ?_⟩
  · have hstaged := (hfresh _).shown shown hshown
    exact hcleared.shown shown hstaged
  · exact .of_eq rfl (getElem?_insert_of_ne hne.symm)
  · rw [bump, staging_clearFresh]
    exact ExtTreeMap.getElem?_insert_self

theorem applySnapshotPage_cases (pageNumber : Nat) (records : List InventoryRecord)
    (hresult : view.applySnapshotPage scope byteLimit owner sessionId snapshotId pageNumber
      records = (result, view')) :
    result ≠ .ok () ∧ view' = view ∨
      ∃ (staging staged : StagingView) (bytes : Nat) (updates : List (Residence × InventoryRecord)),
        view.staging[owner]? = some staging ∧
        validatePage scope staging.lastResidence records = .ok (bytes, updates) ∧
        view'.owners = view.owners ∧ view'.staging = view.staging.insert owner staged ∧
        staged.records = (stagePage staging updates).records ∧
        staged.replaySequence = (stagePage staging updates).replaySequence := by
  unfold applySnapshotPage at hresult
  split at hresult
  · cases hresult
    exact .inl ⟨nofun, rfl⟩
  next staging hstaging =>
  iterate 4
    split at hresult
    · cases hresult
      exact .inl ⟨nofun, rfl⟩
  next bytes updates hvalid =>
  split at hresult
  · cases hresult
    exact .inl ⟨nofun, rfl⟩
  cases hresult
  exact .inr ⟨staging, _, bytes, updates, hstaging, hvalid, rfl, rfl, rfl, rfl⟩

theorem applySnapshotDelta_cases (fromExclusive throughInclusive : Nat)
    (records : List InventoryRecord)
    (hresult : view.applySnapshotDelta scope byteLimit owner sessionId fromExclusive
      throughInclusive records = (result, view')) :
    result ≠ .ok () ∧ view' = view ∨
      ∃ (staging staged : StagingView) (latest : RecordMap),
        view.staging[owner]? = some staging ∧ staging.replaySequence = fromExclusive ∧
        latestRecords scope fromExclusive throughInclusive records ∅ = .ok latest ∧
        view'.owners = view.owners ∧ view'.staging[owner]? = some staged ∧
        (∀ other ≠ owner, view'.staging[other]? = view.staging[other]?) ∧
        staged.records = applyRecords staging.records latest.toList ∧
        staged.replaySequence = throughInclusive := by
  unfold applySnapshotDelta at hresult
  split at hresult
  · cases hresult
    exact .inl ⟨nofun, rfl⟩
  next staging hstaging =>
  split at hresult
  · cases hresult
    exact .inl ⟨nofun, rfl⟩
  next hidentity =>
  obtain ⟨-, hreplay⟩ := not_or.mp hidentity
  split at hresult
  · cases hresult
    exact .inl ⟨nofun, rfl⟩
  next bytes updates hvalid =>
  obtain ⟨-, latest, hlatest, rfl, -⟩ := validateDelta_ok hvalid
  split at hresult
  · cases hresult
    exact .inl ⟨nofun, rfl⟩
  refine .inr ⟨staging, ?_⟩
  simp only at hresult
  -- the counters are updated last, and each update may fail
  repeat' split at hresult
  all_goals
    cases hresult
    exact ⟨_, latest, hstaging, not_not.mp hreplay, hlatest, rfl, ExtTreeMap.getElem?_insert_self,
      fun other hne => by simp [getElem?_insert_of_ne hne.symm], rfl, rfl⟩

theorem commitSnapshot_cases (admitted : Bool) (throughSequence pageCount : Nat)
    {result : Except String Uuid}
    (hresult : view.commitSnapshot admitted owner sessionId snapshotId viewId throughSequence
      pageCount = (result, view')) :
    (∀ id, result ≠ .ok id) ∧ Spared source view view' ∨
      ∃ staging : StagingView, view.staging[owner]? = some staging ∧
        staging.replaySequence = throughSequence ∧ result = .ok viewId ∧
        view'.owners[owner]? = some (committedView staging throughSequence) ∧
        (source ≠ owner → Spared source view view') := by
  unfold commitSnapshot at hresult
  split at hresult
  · cases hresult
    exact .inl ⟨nofun, .refl⟩
  next staging hstaging =>
  split at hresult
  · cases hresult
    exact .inl ⟨nofun, .refl⟩
  next hcomplete =>
  split at hresult
  · cases hresult
    exact .inl ⟨nofun, spared_dropStaging _⟩
  obtain ⟨rfl, rfl⟩ := Prod.mk.inj hresult
  refine .inr ⟨staging, hstaging, ?_, rfl, ?_, fun hne => ?_⟩
  · by_contra hreplay
    exact hcomplete (.inr (.inr (.inr (.inl hreplay))))
  · exact ExtTreeMap.getElem?_insert_self
  · refine .of_eq ?_ ?_
    · unfold installOwner removeActiveOwner
      simp only [bump, addFresh]
      split <;> simp [releaseActiveBytes, ExtTreeMap.getElem?_insert,
        ExtTreeMap.getElem?_erase, hne.symm]
    · unfold installOwner removeActiveOwner
      simp only [bump, addFresh]
      split <;> simp [releaseActiveBytes, dropAdmitted, dropFresh,
        ExtTreeMap.getElem?_erase, hne.symm]

theorem applyDelta_cases (fromExclusive throughInclusive : Nat) (records : List InventoryRecord)
    {result : Except String DeltaApply}
    (hresult : view.applyDelta scope byteLimit owner viewId fromExclusive throughInclusive
      records = (result, view')) :
    view' = view ∧ result ≠ .ok .applied ∧ (result = .ok .duplicate →
        ∃ ownerView : OwnerView, view.owners[owner]? = some ownerView ∧
          ownerView.retired = false ∧ throughInclusive ≤ ownerView.appliedSequence) ∨
      ∃ (ownerView : OwnerView) (latest : RecordMap), view.owners[owner]? = some ownerView ∧
        ownerView.retired = false ∧ ownerView.appliedSequence = fromExclusive ∧
        latestRecords scope fromExclusive throughInclusive records ∅ = .ok latest ∧
        (∀ other, result ≠ .ok (.overlap other)) ∧ result ≠ .ok .duplicate ∧
        view'.staging = view.staging ∧
        view'.owners = view.owners.insert owner { ownerView with
          records := applyRecords ownerView.records latest.toList
          appliedSequence := throughInclusive
          fresh := true } := by
  unfold applyDelta at hresult
  split at hresult
  · cases hresult
    exact .inl ⟨rfl, nofun, nofun⟩
  next ownerView howner =>
  split at hresult
  · cases hresult
    exact .inl ⟨rfl, nofun, nofun⟩
  next hidentity =>
  have hactive : ownerView.retired = false := by
    simpa using (not_or.mp hidentity).2
  split at hresult
  · next hduplicate =>
    cases hresult
    exact .inl ⟨rfl, nofun, fun _ => ⟨ownerView, howner, hactive, hduplicate⟩⟩
  iterate 3
    split at hresult
    · cases hresult
      exact .inl ⟨rfl, nofun, nofun⟩
  next bytes updates hvalid =>
  obtain ⟨-, latest, hlatest, rfl, -⟩ := validateDelta_ok hvalid
  split at hresult
  · cases hresult
    exact .inl ⟨rfl, nofun, nofun⟩
  refine .inr ⟨ownerView, latest, howner, hactive, by omega, hlatest, ?_⟩
  simp only at hresult
  repeat' split at hresult
  all_goals
    cases hresult
    exact ⟨nofun, nofun, rfl, rfl⟩

end Calls

theorem spared_call (index : GlobalIndex) (now : Nat) {call : IndexCall}
    (hspares : call.spares source = true) : Spared source index.view (index.viewAfter now call) := by
  have hne : ∀ owner : Uuid, decide (owner ≠ source) = true → owner ≠ source := fun _ =>
    of_decide_eq_true
  cases call with
  | setExpectedOwners revision owners => exact spared_setExpectedOwners _ revision owners
  | markSyncing owner => exact spared_markSyncing owner
  | confirmProgress owner viewId applied => exact spared_confirmProgress owner viewId applied
  | beginSnapshot owner sessionId snapshotId viewId start =>
    exact (beginSnapshot_cases _ _ _ _ _ _ _ _ Prod.mk.eta.symm).2.1 (hne owner hspares).symm
  | applySnapshotPage owner sessionId snapshotId pageNumber records =>
    obtain ⟨-, hsame⟩ | ⟨_, _, _, _, -, -, howners, hstaging, -⟩ :=
      applySnapshotPage_cases index.view index.scope index.byteLimit owner sessionId snapshotId
        pageNumber records Prod.mk.eta.symm
    · rw [viewAfter, hsame]
      exact .refl
    · refine .of_eq (by rw [viewAfter, howners]) ?_
      rw [viewAfter, hstaging]
      exact getElem?_insert_of_ne (hne owner hspares)
  | applySnapshotDelta owner sessionId fromExclusive through records =>
    obtain ⟨-, hsame⟩ | ⟨_, _, _, -, -, -, howners, -, hothers, -⟩ :=
      applySnapshotDelta_cases index.view index.scope index.byteLimit owner sessionId
        fromExclusive through records Prod.mk.eta.symm
    · rw [viewAfter, hsame]
      exact .refl
    · exact .of_eq (by rw [viewAfter, howners]) (hothers source (hne owner hspares).symm)
  | commitSnapshot owner sessionId snapshotId viewId through pageCount =>
    obtain ⟨-, hspared⟩ | ⟨_, -, -, -, -, hspared⟩ := commitSnapshot_cases source index.view
      owner sessionId snapshotId viewId (index.membership.resolve now owner).isSome through pageCount
      Prod.mk.eta.symm
    · exact hspared
    · exact hspared (hne owner hspares).symm
  | abortSnapshot owner sessionId => exact spared_abortSnapshot owner sessionId
  | applyDelta owner viewId fromExclusive through records =>
    obtain ⟨hsame, -⟩ | ⟨_, _, -, -, -, -, -, -, hstaging, howners⟩ :=
      applyDelta_cases index.view index.scope index.byteLimit owner viewId fromExclusive through
        records Prod.mk.eta.symm
    · rw [viewAfter, hsame]
      exact .refl
    · refine .of_eq ?_ (by rw [viewAfter, hstaging])
      rw [viewAfter, howners]
      exact getElem?_insert_of_ne (hne owner hspares)
  | retireOwner owner => exact spared_retireOwner owner
  | cleanupOwner owner limit => exact spared_cleanupOwner owner limit
  | reset => exact ⟨by simp [viewAfter, empty, shown],
      by simp [viewAfter, empty]⟩
  | membership change => exact .refl

/-! ### The records of a frame -/

theorem InventoryRecord.residence_of_residence? {record : InventoryRecord} {residence : Residence}
    (hresidence : record.residence? = some residence) : record.residence = residence := by
  obtain ⟨metadata, hmetadata, rfl⟩ := Option.map_eq_some_iff.mp hresidence
  simp [InventoryRecord.residence, hmetadata]

theorem lastChange_cons (record : InventoryRecord) (records : List InventoryRecord)
    (residence : Residence) :
    residency.lastChange (record :: records) residence =
      (residency.lastChange records residence).or
        (if record.residence = residence then some record else none) := by
  rw [← List.singleton_append, ChangeKind.lastChange_append]
  by_cases hkey : record.residence = residence <;> simp [ChangeKind.lastChange, residency, hkey]

theorem getElem?_stagePage {staging : StagingView} {updates : List (Residence × InventoryRecord)}
    (hvalid : ∀ update ∈ updates, update.2.residence? = some update.1) (residence : Residence) :
    (stagePage staging updates).records[residence]? =
      (residency.lastChange (updates.map (·.2)) residence).or staging.records[residence]? := by
  unfold stagePage
  induction updates generalizing staging with
  | nil => simp [ChangeKind.lastChange]
  | cons update updates ih =>
    have hresidence := InventoryRecord.residence_of_residence? (hvalid update List.mem_cons_self)
    rw [List.foldl_cons, ih fun update' hmem => hvalid update' (List.mem_cons_of_mem _ hmem),
      List.map_cons, lastChange_cons, hresidence, ExtTreeMap.getElem?_insert, Option.or_assoc]
    by_cases hkey : update.1 = residence <;> simp [hkey]

theorem replaySequence_stagePage (staging : StagingView)
    (updates : List (Residence × InventoryRecord)) :
    (stagePage staging updates).replaySequence = staging.replaySequence := by
  unfold stagePage
  refine foldl_observe StagingView.replaySequence (fun _ _ _ => ?_) staging
  rfl

theorem getElem?_latestRecords {scope : InventoryScope} {fromExclusive throughInclusive : Nat}
    {records : List InventoryRecord} :
    ∀ {latest latest' : RecordMap}, records.Pairwise (fun a b => a.residence ≠ b.residence) →
      (∀ record ∈ records, latest[record.residence]? = none) →
      latestRecords scope fromExclusive throughInclusive records latest = .ok latest' →
      ∀ residence : Residence, latest'[residence]? =
        (residency.lastChange records residence).or latest[residence]? := by
  induction records with
  | nil =>
    intro latest latest' _ _ hok residence
    obtain rfl : latest = latest' := by simpa [latestRecords] using hok
    simp [ChangeKind.lastChange]
  | cons record records ih =>
    intro latest latest' hdistinct hnew hok residence
    rw [List.pairwise_cons] at hdistinct
    unfold latestRecords at hok
    iterate 3
      split at hok
      · cases hok
    next found hvalid =>
    have hresidence := InventoryRecord.residence_of_residence? (validateRecord_ok hvalid)
    have hfresh := hnew record List.mem_cons_self
    rw [hresidence] at hfresh
    rw [if_neg (by simp [hfresh]), if_neg (by simp [hfresh])] at hok
    have hrest : ∀ record' ∈ records, (latest.insert found record)[record'.residence]? = none := by
      intro record' hmem
      have hne := hdistinct.1 record' hmem
      rw [hresidence] at hne
      rw [ExtTreeMap.getElem?_insert, if_neg (by simpa using hne)]
      exact hnew record' (List.mem_cons_of_mem _ hmem)
    rw [ih hdistinct.2 hrest hok, lastChange_cons, hresidence, ExtTreeMap.getElem?_insert,
      Option.or_assoc]
    by_cases hkey : found = residence <;> simp [hkey]

theorem DeltaRead.getElem?_applyRecords {log : List InventoryRecord} {scope : InventoryScope}
    {after through : Nat} {records : List InventoryRecord} {current latest : RecordMap}
    (hread : DeltaRead log scope after through records)
    (hlatest : latestRecords scope after through records ∅ = .ok latest)
    {copy : Residence → Option InventoryRecord} (hcopy : ∀ r : Residence, current[r]? = copy r)
    (residence : Residence) :
    (applyRecords current latest.toList)[residence]? = overlay records copy residence := by
  have hlookup := getElem?_latestRecords hread.distinct (by simp) hlatest residence
  rw [OrbitKV.getElem?_applyRecords, hlookup, hcopy, overlay]
  simp

/-! ### Following the source -/

def Faithful (log : List InventoryRecord) (scope : InventoryScope) (source : Uuid) (view : View) :
    Prop :=
  ∀ viewId applied records, view.shown source = some (viewId, applied, records) →
    applied ≤ log.length ∧ ∀ residence : Residence,
      records[residence]? = (scopedResidency scope).stateAt log applied residence

def Follows (source : Uuid) (view : View) (receiver : Receiver) : Mode → Prop
  | .live position => receiver.snapshotId = none ∧ ∀ sequence, position = some sequence →
      ∀ viewId applied records, view.shown source = some (viewId, applied, records) →
        applied = sequence
  | .staging copy replayed => receiver.snapshotId.isSome ∧
      ∀ staging : StagingView, view.staging[source]? = some staging →
        (∀ residence : Residence, staging.records[residence]? = copy residence) ∧
          staging.replaySequence = replayed

section Following

variable {log : List InventoryRecord} {scope : InventoryScope} {source : Uuid} {view view' : View}

theorem Faithful.append (hfaithful : Faithful log scope source view)
    (more : List InventoryRecord) : Faithful (log ++ more) scope source view := by
  intro viewId applied records hshown
  obtain ⟨hle, hrecords⟩ := hfaithful viewId applied records hshown
  refine ⟨hle.trans (by simp), fun residence => ?_⟩
  rw [ChangeKind.stateAt_append log more hle, hrecords]

theorem Faithful.of_shown (hfaithful : Faithful log scope source view)
    (hshown : ∀ shown, view'.shown source = some shown → view.shown source = some shown) :
    Faithful log scope source view' :=
  fun viewId applied records hfound => hfaithful viewId applied records (hshown _ hfound)

theorem Follows.spared {receiver : Receiver} {mode : Mode}
    (hfollows : Follows source view receiver mode) (hspared : Spared source view view') :
    Follows source view' receiver mode := by
  cases mode with
  | live position =>
    exact ⟨hfollows.1, fun sequence hsequence viewId applied records hshown =>
      hfollows.2 sequence hsequence viewId applied records (hspared.shown _ hshown)⟩
  | staging copy replayed =>
    exact ⟨hfollows.1, fun staging hstaging => hfollows.2 staging (hspared.staging _ hstaging)⟩

/-- The outcome of one frame: the installed view stays faithful, a receiver that goes on stands
where the frame leads, and a success is the watermark of the installed view. -/
structure Outcome (log : List InventoryRecord) (source : Uuid) (scope : InventoryScope)
    (mode : Mode) (received : Received) (receiver : Receiver) (index : GlobalIndex) : Prop where
  scope_eq : index.scope = scope
  faithful : Faithful log scope source index.view
  follows : (∀ error, received ≠ .failed error) → Follows source index.view receiver mode
  watermark : ∀ through, received = .committed through ∨ received = .applied through →
    ∃ viewId records, index.view.shown source = some (viewId, through, records)

end Following

end OrbitKV
