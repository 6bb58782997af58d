import OrbitKV.Proof.IndexCounters

/-!
# Every method keeps the counters

Where a method removes a view or a staging area before it installs another, the removal is a step of
its own.
-/

namespace OrbitKV

open Std View.Sound ExtTreeMap

variable {view : View} {byteLimit : Nat}

section Methods

variable {owner : Uuid}

theorem View.Sound.empty (byteLimit : Nat) : View.empty.Sound byteLimit where
  bytes :=
    { activeSum := (mapSum_empty _).symm
      stagingSum := (mapSum_empty _).symm
      staged := fun _ _ hfound => by simp [View.empty] at hfound
      ordered := fun _ _ hfound => by simp [View.empty] at hfound
      total := rfl
      limit := Nat.zero_le _ }
  counts :=
    { admitted := (mapSum_empty _).symm
      fresh := by
        change 0 = (∅ : ExtTreeSet Uuid).toList.countP _
        rw [ExtTreeSet.toList_eq_nil_iff.mpr rfl]
        rfl }
  noUnderflow := rfl

theorem View.Sound.bump (h : view.Sound byteLimit) : view.bump.Sound byteLimit :=
  ⟨h.bytes, h.counts, h.noUnderflow⟩

/-! ### Staging areas -/

structure View.Accounts (view : View) (byteLimit : Nat) : Prop where
  bytes : Accounted view.owners view.staging view.activeBytes view.stagingBytes
    view.accountedBytes byteLimit
  noUnderflow : view.underflow = false

theorem View.Accounts.dropStaging (h : view.Accounts byteLimit) {staging : StagingView}
    (hfound : view.staging[owner]? = some staging) :
    (view.dropStaging (owner, staging)).Accounts byteLimit := by
  obtain ⟨hstaging, haccounted⟩ := h.bytes.staging_le hfound
  refine ⟨h.bytes.staging_erase hfound, ?_⟩
  simp [View.dropStaging, View.releaseStagingBytes, h.noUnderflow, hstaging, haccounted]

theorem View.Sound.dropStaging (h : view.Sound byteLimit) {staging : StagingView}
    (hfound : view.staging[owner]? = some staging) :
    (view.dropStaging (owner, staging)).Sound byteLimit := by
  have hdropped := View.Accounts.dropStaging ⟨h.bytes, h.noUnderflow⟩ hfound
  exact ⟨hdropped.bytes, h.counts, hdropped.noUnderflow⟩

theorem View.Sound.removeStaging (h : view.Sound byteLimit) (owner : Uuid) :
    (view.removeStaging owner).Sound byteLimit ∧ (view.removeStaging owner).staging[owner]? = none := by
  unfold View.removeStaging
  split
  next hnone => exact ⟨h, hnone⟩
  next staging hfound => exact ⟨h.dropStaging hfound, getElem?_erase_self⟩

theorem View.Sound.abortSnapshot (h : view.Sound byteLimit) (owner sessionId : Uuid) :
    (view.abortSnapshot owner sessionId).Sound byteLimit := by
  unfold View.abortSnapshot
  split
  · exact h
  next staging hfound =>
  split
  · exact (h.dropStaging hfound).bump
  · exact h

/-! ### Freshness -/

theorem View.Sound.clearFresh (h : view.Sound byteLimit) (owner : Uuid) :
    (view.clearFresh owner).Sound byteLimit := by
  unfold View.clearFresh
  split
  · exact h
  next ownerView hfound =>
  have hle := h.counts.fresh_le owner
  have hat : freshAt view.owners view.expected owner =
      (ownerView.fresh && !ownerView.retired && view.expected.contains owner) := by
    rw [freshAt_of_getElem? hfound, Bool.and_comm, Bool.and_comm (!ownerView.retired)]
  rw [hat] at hle
  refine ⟨h.bytes.owner_same hfound rfl, h.counts.owner_refresh hfound rfl ?_, ?_⟩
  · rw [hat]
    simp only [View.dropFresh, Bool.and_false, Bool.toNat_false]
    omega
  · simp [View.dropFresh, h.noUnderflow, hle]

theorem View.Sound.markSyncing (h : view.Sound byteLimit) (owner : Uuid) :
    (view.markSyncing owner).Sound byteLimit :=
  (h.clearFresh owner).bump

theorem fresh_add {owners : ExtTreeMap Uuid OwnerView} {expected : ExtTreeSet Uuid}
    {ownerView : OwnerView} (hfound : owners[owner]? = some ownerView)
    (hactive : ownerView.retired = false) (freshViews : Nat) :
    freshViews + (!ownerView.fresh && expected.contains owner).toNat +
        (freshAt owners expected owner).toNat =
      freshViews + (expected.contains owner && (!ownerView.retired && true)).toNat := by
  rw [freshAt_of_getElem? hfound, hactive]
  cases ownerView.fresh <;> cases expected.contains owner <;> rfl

theorem View.Sound.confirmProgress (h : view.Sound byteLimit) (owner viewId : Uuid)
    (appliedSequence : Nat) :
    (view.confirmProgress owner viewId appliedSequence).2.Sound byteLimit := by
  unfold View.confirmProgress
  split
  · exact h
  next ownerView hfound =>
  split
  · exact h
  next hmatch =>
  have hactive : ownerView.retired = false :=
    Bool.eq_false_iff.mpr fun hretired => hmatch (.inl hretired)
  apply bump
  exact ⟨h.bytes.owner_same hfound rfl,
    h.counts.owner_refresh hfound rfl (fresh_add hfound hactive _), h.noUnderflow⟩

/-! ### Snapshots -/

theorem View.Sound.beginSnapshot (h : view.Sound byteLimit)
    (owner sessionId snapshotId viewId : Uuid) (startSequence : Nat) :
    (view.beginSnapshot byteLimit owner sessionId snapshotId viewId startSequence).2.Sound
      byteLimit := by
  unfold View.beginSnapshot
  split
  · exact h
  split
  · exact h
  obtain ⟨hcleared, hnone⟩ := h.removeStaging owner
  simp only
  split
  · exact hcleared
  next hroom =>
  have htotal := hcleared.bytes.total
  apply bump
  apply clearFresh
  refine ⟨hcleared.bytes.staging_insert ?_ ?_ ?_ ?_ ?_, hcleared.counts, hcleared.noUnderflow⟩
  · change ownerAccountingBytes = ownerAccountingBytes + recordBytes ∅
    rw [recordBytes_empty, Nat.add_zero]
  · intro _ residence hmem
    simp [View.freshStaging] at hmem
  · rw [sumAt_of_none hnone]
    rfl
  · dsimp only
    omega
  · dsimp only
    omega

theorem View.Sound.applySnapshotPage (h : view.Sound byteLimit) (scope : InventoryScope)
    (owner sessionId snapshotId : Uuid) (pageNumber : Nat) (records : List InventoryRecord) :
    (view.applySnapshotPage scope byteLimit owner sessionId snapshotId pageNumber records).2.Sound
      byteLimit := by
  unfold View.applySnapshotPage
  split
  · exact h
  next staging hfound =>
  split
  · exact h
  split
  · exact h
  next hreplay =>
  split
  · exact h
  split
  · exact h
  next additional updates hvalid =>
  split
  · exact h
  next hroom =>
  have htotal := h.bytes.total
  have hordered := h.bytes.ordered owner staging hfound (Bool.eq_false_iff.mpr hreplay)
  obtain ⟨hbytes, hordered', -, hcharge⟩ := stagePage_bytes hordered hvalid
  have hstaged := h.bytes.staged owner staging hfound
  refine ⟨h.bytes.staging_insert ?_ (fun _ => hordered') ?_ ?_ ?_, h.counts, h.noUnderflow⟩
  · dsimp only
    omega
  · rw [sumAt_of_getElem? hfound]
    dsimp only
    omega
  · dsimp only
    omega
  · dsimp only
    omega

theorem checkedAddSigned_of_bytes (value : Nat) {before after : Nat} {delta : Int}
    (hle : before ≤ value) (hdelta : (after : Int) = before + delta) :
    checkedAddSigned value delta = some (value - before + after) := by
  unfold checkedAddSigned
  rw [if_pos (by omega)]
  congr 1
  omega

def underflowErrors : List String :=
  ["inventory staging accounting underflow", "active index accounting underflow",
    "index accounting underflow"]

variable {error : String}

theorem validateRecord_error {record : InventoryRecord}
    (herror : validateRecord record = .error error) : error ∉ underflowErrors := by
  unfold validateRecord at herror
  split at herror
  · cases herror
    decide
  split at herror
  · cases herror
    decide
  · cases herror

theorem latestRecords_error {scope : InventoryScope} {fromExclusive throughInclusive : Nat}
    {records : List InventoryRecord} {latest : RecordMap}
    (herror : latestRecords scope fromExclusive throughInclusive records latest = .error error) :
    error ∉ underflowErrors := by
  induction records generalizing latest with
  | nil => cases herror
  | cons head records ih =>
    unfold latestRecords at herror
    split at herror
    · cases herror
      decide
    split at herror
    · cases herror
      decide
    split at herror
    next error' hvalid =>
      cases herror
      exact validateRecord_error hvalid
    split at herror
    · exact ih herror
    split at herror
    · cases herror
      decide
    · exact ih herror

theorem deltaBytes_error {current : RecordMap} {entries : List (Residence × InventoryRecord)}
    (herror : deltaBytes current entries = .error error) : error ∉ underflowErrors := by
  have hmap : ∀ {result : Except String Int} {f : Int → Int}, result.map f = .error error →
      result = .error error := by
    intro result f herror
    cases result with
    | error error' => exact congrArg _ (Except.error.inj herror)
    | ok delta => cases herror
  induction entries with
  | nil => cases herror
  | cons entry entries ih =>
    unfold deltaBytes at herror
    split at herror
    · split at herror
      · exact ih herror
      split at herror
      · cases herror
        decide
      split at herror
      · exact ih (hmap herror)
      · exact ih herror
    · split at herror
      · exact ih (hmap herror)
      · exact ih herror

theorem validateDelta_error {current : RecordMap} {fromExclusive throughInclusive : Nat}
    {records : List InventoryRecord} {scope : InventoryScope}
    (herror : validateDelta current fromExclusive throughInclusive records scope = .error error) :
    error ∉ underflowErrors := by
  unfold validateDelta at herror
  split at herror
  · cases herror
    decide
  split at herror
  next error' hlatest =>
    cases herror
    exact latestRecords_error hlatest
  next latest hlatest =>
    cases hbytes : deltaBytes current latest.toList with
    | error error' =>
      rw [hbytes] at herror
      cases herror
      exact deltaBytes_error hbytes
    | ok delta =>
      rw [hbytes] at herror
      cases herror

def AccountsRight {α : Type} (result : Except String α) : Prop :=
  ∀ error, result = .error error → error ∉ underflowErrors

theorem accountsRight_ok {α : Type} (a : α) : AccountsRight (.ok a) := by
  intro error herror
  cases herror

theorem accountsRight_error {α : Type} (hnot : error ∉ underflowErrors) :
    AccountsRight (.error error : Except String α) := by
  intro error' herror
  cases herror
  exact hnot

section

variable (h : view.Sound byteLimit)
  {records : RecordMap} {ownerView : OwnerView}

include h

theorem View.Sound.replay {staging : StagingView} (hfound : view.staging[owner]? = some staging)
    {delta : Int} (hdelta : (recordBytes records : Int) = recordBytes staging.records + delta) :
    ∃ bytes stagingBytes accountedBytes,
      checkedAddSigned staging.bytes delta = some bytes ∧
      checkedAddSigned view.stagingBytes delta = some stagingBytes ∧
      checkedAddSigned view.accountedBytes delta = some accountedBytes ∧
      bytes = ownerAccountingBytes + recordBytes records ∧
      stagingBytes + staging.bytes = view.stagingBytes + bytes ∧
      accountedBytes = view.activeBytes + stagingBytes := by
  have hstaged := h.bytes.staged owner staging hfound
  have hle := h.bytes.staging_le hfound
  have htotal := h.bytes.total
  refine ⟨_, _, _, checkedAddSigned_of_bytes _ (by omega) hdelta,
    checkedAddSigned_of_bytes _ (by omega) hdelta, checkedAddSigned_of_bytes _ (by omega) hdelta, ?_⟩
  omega

theorem View.Sound.applySnapshotDelta (scope : InventoryScope) (owner sessionId : Uuid)
    (fromExclusive throughInclusive : Nat) (records : List InventoryRecord) :
    (view.applySnapshotDelta scope byteLimit owner sessionId fromExclusive throughInclusive
        records).2.Sound byteLimit ∧
      AccountsRight (view.applySnapshotDelta scope byteLimit owner sessionId fromExclusive
        throughInclusive records).1 := by
  unfold View.applySnapshotDelta
  split
  · exact ⟨h, accountsRight_error (by decide)⟩
  next staging hfound =>
  split
  · exact ⟨h, accountsRight_error (by decide)⟩
  split
  next error hvalid => exact ⟨h, accountsRight_error (validateDelta_error hvalid)⟩
  next delta updates hvalid =>
  obtain ⟨bytes, stagingBytes, accountedBytes, hbytes, hstaging, haccounted, hcharge, hsum, htotal⟩ :=
    h.replay hfound (validateDelta_bytes hvalid)
  rw [haccounted]
  split
  · exact ⟨h, accountsRight_error (by decide)⟩
  next hroom =>
  simp only [hbytes, hstaging, haccounted, insert_insert]
  refine ⟨⟨h.bytes.staging_insert hcharge (fun hfalse => by cases hfalse) ?_ htotal ?_, h.counts,
    h.noUnderflow⟩, accountsRight_ok ()⟩
  · rw [sumAt_of_getElem? hfound]
    exact hsum
  · simpa using hroom

/-! ### Views -/

theorem View.Sound.removeActiveOwner (owner : Uuid) :
    (view.removeActiveOwner owner).Sound byteLimit ∧
      (view.removeActiveOwner owner).owners[owner]? = none ∧
      (view.removeActiveOwner owner).staging = view.staging := by
  unfold View.removeActiveOwner
  split
  next hnone => exact ⟨h, hnone, rfl⟩
  next previous hfound =>
  have hbytes : ownerAccountingBytes +
      (previous.records.keys.map fun residence => entryBytes residence.1).sum = previous.bytes := by
    rw [sum_entryBytes_keys]
    rfl
  have hfresh : (!previous.retired && previous.fresh && view.expected.contains owner) =
      freshAt view.owners view.expected owner := by
    rw [freshAt_of_getElem? hfound, Bool.and_comm]
  have hfresh_le := h.counts.fresh_le owner
  have hadmitted_le := h.counts.admitted_le hfound
  obtain ⟨hactive_le, haccounted_le⟩ := h.bytes.active_le hfound
  simp only [hbytes, hfresh]
  refine ⟨⟨h.bytes.owner_erase hfound, h.counts.owner_erase hfound, ?_⟩, getElem?_erase_self, rfl⟩
  simp [View.releaseActiveBytes, View.dropFresh, View.dropAdmitted, h.noUnderflow, hfresh_le,
    hadmitted_le, hactive_le, haccounted_le]

theorem View.Sound.installOwner {staging : StagingView}
    (hfound : view.staging[owner]? = some staging) (hnone : view.owners[owner]? = none)
    (throughSequence : Nat) :
    ({ view with staging := view.staging.erase owner }.installOwner owner staging
      throughSequence).Sound byteLimit := by
  apply bump
  refine ⟨h.bytes.commit hfound hnone rfl, h.counts.owner_insert ?_ ?_, ?_⟩
  · rw [sumAt_of_none hnone]
    rfl
  · have hnot : freshAt view.owners view.expected owner = false := by
      simp [freshAt, freshIn, hnone]
    rw [hnot]
    simp [View.addFresh, View.committedView]
  · have hle := (h.bytes.staging_le hfound).1
    simp [View.addFresh, h.noUnderflow, hle]

theorem View.Sound.commitSnapshot (admitted : Bool)
    (owner sessionId snapshotId viewId : Uuid) (throughSequence pageCount : Nat) :
    (view.commitSnapshot admitted owner sessionId snapshotId viewId throughSequence
      pageCount).2.Sound byteLimit := by
  unfold View.commitSnapshot
  split
  · exact h
  next staging hfound =>
  split
  · exact h
  split
  · exact h.dropStaging hfound
  obtain ⟨hcleared, hnone, hstaging⟩ := h.removeActiveOwner owner
  have hsame : { view with staging := view.staging.erase owner }.removeActiveOwner owner =
      { view.removeActiveOwner owner with
        staging := (view.removeActiveOwner owner).staging.erase owner } := by
    rw [hstaging]
    cases howner : view.owners[owner]? with
    | none => simp [View.removeActiveOwner, howner]
    | some previous =>
      simp only [View.removeActiveOwner, howner]
      rfl
  simp only [hsame]
  exact hcleared.installOwner (hstaging ▸ hfound) hnone throughSequence

theorem View.Sound.charge (hfound : view.owners[owner]? = some ownerView) {delta : Int}
    (hdelta : (recordBytes records : Int) = recordBytes ownerView.records + delta) :
    ∃ activeBytes accountedBytes,
      checkedAddSigned view.activeBytes delta = some activeBytes ∧
      checkedAddSigned view.accountedBytes delta = some accountedBytes := by
  have hle := h.bytes.active_le hfound
  have hcharge : ownerView.bytes = ownerAccountingBytes + recordBytes ownerView.records := rfl
  exact ⟨_, _, checkedAddSigned_of_bytes _ (by omega) hdelta,
    checkedAddSigned_of_bytes _ (by omega) hdelta⟩

theorem View.Sound.applyDelta (scope : InventoryScope) (owner viewId : Uuid)
    (fromExclusive throughInclusive : Nat) (records : List InventoryRecord) :
    (view.applyDelta scope byteLimit owner viewId fromExclusive throughInclusive
        records).2.Sound byteLimit ∧
      AccountsRight (view.applyDelta scope byteLimit owner viewId fromExclusive throughInclusive
        records).1 := by
  unfold View.applyDelta
  split
  · exact ⟨h, accountsRight_error (by decide)⟩
  next ownerView hfound =>
  split
  · exact ⟨h, accountsRight_error (by decide)⟩
  next hidentity =>
  split
  · exact ⟨h, accountsRight_ok _⟩
  split
  · exact ⟨h, accountsRight_ok _⟩
  split
  · exact ⟨h, accountsRight_error (by decide)⟩
  split
  next error hvalid => exact ⟨h, accountsRight_error (validateDelta_error hvalid)⟩
  next delta updates hvalid =>
  have hactive : ownerView.retired = false :=
    Bool.eq_false_iff.mpr fun hretired => hidentity (.inr hretired)
  have hdelta := validateDelta_bytes hvalid
  have hle := h.bytes.active_le hfound
  have htotal := h.bytes.total
  have hcharge : ownerView.bytes = ownerAccountingBytes + recordBytes ownerView.records := rfl
  have hactiveBytes := checkedAddSigned_of_bytes view.activeBytes (by omega) hdelta
  have haccounted := checkedAddSigned_of_bytes view.accountedBytes (by omega) hdelta
  rw [haccounted]
  split
  · exact ⟨h, accountsRight_error (by decide)⟩
  next hroom =>
  simp only [View.addFresh, hactiveBytes, haccounted]
  refine ⟨bump ⟨h.bytes.owner_replace hfound ?_ ?_ ?_,
    h.counts.owner_refresh hfound rfl (fresh_add hfound hactive _), h.noUnderflow⟩,
    accountsRight_ok _⟩
  · simp only [OwnerView.bytes]
    omega
  · dsimp only
    omega
  · simpa using hroom

theorem View.Sound.retireOwner (owner : Uuid) : (view.retireOwner owner).Sound byteLimit := by
  unfold View.retireOwner
  obtain ⟨hcleared, -⟩ := h.removeStaging owner
  simp only
  split
  · exact hcleared.bump
  next ownerView hfound =>
  have hfresh : (!ownerView.retired && ownerView.fresh &&
      (view.removeStaging owner).expected.contains owner) =
      freshAt (view.removeStaging owner).owners (view.removeStaging owner).expected owner := by
    rw [freshAt_of_getElem? hfound, Bool.and_comm]
  have hfresh_le := hcleared.counts.fresh_le owner
  have hadmitted_le := hcleared.counts.admitted_le hfound
  rw [hfresh]
  apply bump
  refine ⟨hcleared.bytes.owner_same hfound rfl, hcleared.counts.owner_insert ?_ ?_, ?_⟩
  · rw [sumAt_of_getElem? hfound]
    simp only [View.dropFresh, View.dropAdmitted, Bool.not_true, Bool.toNat_false]
    omega
  · simp only [View.dropFresh, View.dropAdmitted, Bool.not_true, Bool.and_false,
      Bool.toNat_false]
    omega
  · simp [View.dropFresh, View.dropAdmitted, hcleared.noUnderflow, hfresh_le, hadmitted_le]

theorem View.Sound.trim (hfound : view.owners[owner]? = some ownerView)
    (blocks : ExtTreeMap StateKey (List Entry)) {removed : Nat}
    (hbytes : recordBytes records + removed = recordBytes ownerView.records) :
    ({ view with
      blocks := blocks
      owners := view.owners.insert owner { ownerView with records := records }
      }.releaseActiveBytes removed).Sound byteLimit := by
  have hle := h.bytes.active_le hfound
  have htotal := h.bytes.total
  have hcharge : ownerView.bytes = ownerAccountingBytes + recordBytes ownerView.records := rfl
  refine ⟨h.bytes.owner_replace hfound ?_ ?_ ?_, h.counts.owner_refresh hfound rfl ?_, ?_⟩
  · simp only [View.releaseActiveBytes, OwnerView.bytes]
    omega
  · simp only [View.releaseActiveBytes]
    omega
  · exact (Nat.sub_le _ _).trans h.bytes.limit
  · rw [freshAt_of_getElem? hfound]
    rfl
  · simp only [View.releaseActiveBytes, h.noUnderflow, Bool.false_or, Bool.or_eq_false_iff,
      decide_eq_false_iff_not]
    omega

theorem View.Sound.eraseRetired (hfound : view.owners[owner]? = some ownerView)
    (hretired : ownerView.retired = true) (hempty : ownerView.records = ∅) :
    ({ view with owners := view.owners.erase owner }.releaseActiveBytes
      ownerAccountingBytes).Sound byteLimit := by
  have hcharge : ownerView.bytes = ownerAccountingBytes := by
    rw [OwnerView.bytes, hempty, recordBytes_empty, Nat.add_zero]
  have hbytes := h.bytes.owner_erase hfound
  have hcounts := h.counts.owner_erase hfound
  have hle := h.bytes.active_le hfound
  rw [hcharge] at hbytes hle
  rw [freshAt_of_getElem? hfound, hretired, Bool.not_true, Bool.false_and, Bool.and_false,
    Bool.toNat_false, Nat.sub_zero, Nat.sub_zero] at hcounts
  refine ⟨hbytes, hcounts, ?_⟩
  simp [View.releaseActiveBytes, h.noUnderflow, hle]

theorem View.Sound.cleanupOwner (owner : Uuid) (limit : Nat) :
    (view.cleanupOwner owner limit).2.Sound byteLimit := by
  unfold View.cleanupOwner
  split
  · exact h
  next ownerView hfound =>
  split
  · exact h
  next hretired =>
  simp only
  have hbytes := foldl_cleanupRecord_bytes owner (ownerView.records.keys.take (max limit 1))
    view.blocks ownerView.records 0
  generalize (ownerView.records.keys.take (max limit 1)).foldl
    (View.cleanupRecord owner) (view.blocks, ownerView.records, 0) = cleaned at hbytes ⊢
  have htrimmed := h.trim hfound cleaned.1 hbytes
  split
  next hempty =>
    exact htrimmed.eraseRetired getElem?_insert_self (by simpa using hretired)
      (ExtTreeMap.isEmpty_iff.mp hempty)
  · exact htrimmed

end

/-! ### Expected owners -/

theorem mapSum_retireUnexpected (owners : ExtTreeMap Uuid OwnerView) (expected : ExtTreeSet Uuid) :
    mapSum (View.retireUnexpected owners expected) (fun _ ownerView => OwnerView.bytes ownerView) =
      mapSum owners fun _ ownerView => OwnerView.bytes ownerView := by
  apply mapSum_congr
  intro owner
  rw [sumAt, sumAt, View.retireUnexpected, getElem?_map]
  cases owners[owner]? with
  | none => rfl
  | some ownerView =>
    simp only [Option.map_some, Option.elim_some]
    split <;> rfl

theorem View.Accounts.foldl_dropStaging {retired : List (Uuid × StagingView)} :
    ∀ {view : View}, view.Accounts byteLimit →
      (retired.Pairwise fun a b => a.1 ≠ b.1) →
      (∀ entry ∈ retired, view.staging[entry.1]? = some entry.2) →
      (retired.foldl View.dropStaging view).Accounts byteLimit := by
  induction retired with
  | nil =>
    intro view h _ _
    exact h
  | cons entry retired ih =>
    intro view h hdistinct hfound
    obtain ⟨hfirst, hdistinct⟩ := List.pairwise_cons.mp hdistinct
    apply ih (h.dropStaging (hfound entry List.mem_cons_self)) hdistinct
    intro other hother
    change (view.staging.erase entry.1)[other.1]? = some other.2
    rw [getElem?_erase, if_neg fun heq => hfirst other hother (Std.compare_eq_iff_eq.mp heq)]
    exact hfound other (List.mem_cons_of_mem _ hother)

theorem View.Accounts.dropUnexpected (h : view.Accounts byteLimit) (expected : ExtTreeSet Uuid) :
    (view.dropUnexpected expected).Accounts byteLimit := by
  apply h.foldl_dropStaging
  · exact (distinct_fst_toList view.staging).filter _
  · intro entry hentry
    exact mem_toList_iff_getElem?_eq_some.mp (List.mem_filter.mp hentry).1

theorem covered_refresh (view : View) :
    Recounted view.refreshCoverageCounts.owners view.refreshCoverageCounts.expected
      view.refreshCoverageCounts.admittedOwnerViews
      view.refreshCoverageCounts.freshExpectedOwnerViews where
  admitted := (sum_map_toNat (fun entry : Uuid × OwnerView => !entry.2.retired) _).symm
  fresh := rfl

theorem View.Sound.setExpectedOwners (h : view.Sound byteLimit) (localOwner : Uuid) (revision : Int)
    (owners : List Uuid) : (view.setExpectedOwners localOwner revision owners).Sound byteLimit := by
  unfold View.setExpectedOwners
  simp only
  split
  · exact h
  generalize ExtTreeSet.ofList (owners.filter (· ≠ localOwner)) = expected
  have hretired : View.Accounts
      { view with owners := View.retireUnexpected view.owners expected } byteLimit := by
    refine ⟨{ h.bytes with activeSum := ?_ }, h.noUnderflow⟩
    exact h.bytes.activeSum.trans (mapSum_retireUnexpected view.owners expected).symm
  have hdropped := hretired.dropUnexpected expected
  apply bump
  exact ⟨hdropped.bytes, covered_refresh _, hdropped.noUnderflow⟩

end Methods

/-! ### Every reachable index -/

theorem View.Sound.call {index : GlobalIndex} (h : index.view.Sound index.byteLimit) (now : Nat)
    (call : IndexCall) : (index.call now call).view.Sound index.byteLimit := by
  cases call with
  | setExpectedOwners revision owners => exact h.setExpectedOwners _ revision owners
  | markSyncing owner => exact h.markSyncing owner
  | confirmProgress owner viewId appliedSequence =>
    exact h.confirmProgress owner viewId appliedSequence
  | beginSnapshot owner sessionId snapshotId viewId startSequence =>
    exact h.beginSnapshot owner sessionId snapshotId viewId startSequence
  | applySnapshotPage owner sessionId snapshotId pageNumber records =>
    exact h.applySnapshotPage _ owner sessionId snapshotId pageNumber records
  | applySnapshotDelta owner sessionId fromExclusive throughInclusive records =>
    exact (h.applySnapshotDelta _ owner sessionId fromExclusive throughInclusive records).1
  | commitSnapshot owner sessionId snapshotId viewId throughSequence pageCount =>
    exact h.commitSnapshot _ owner sessionId snapshotId viewId throughSequence pageCount
  | abortSnapshot owner sessionId => exact h.abortSnapshot owner sessionId
  | applyDelta owner viewId fromExclusive throughInclusive records =>
    exact (h.applyDelta _ owner viewId fromExclusive throughInclusive records).1
  | retireOwner owner => exact h.retireOwner owner
  | cleanupOwner owner limit => exact h.cleanupOwner owner limit
  | reset => exact empty _
  | membership change => exact h

theorem counters_of_reachable {index : GlobalIndex} (hreach : indexMachine.Reachable index) :
    index.view.Sound index.byteLimit := by
  apply hreach.invariant (I := fun index => index.view.Sound index.byteLimit)
  · intro index hinit
    have hempty : index.view = .empty := hinit
    rw [hempty]
    exact empty _
  · rintro index ⟨now, call⟩ _ h rfl
    exact h.call now call

/-- **Byte accounting.** In every reachable state the accounts are the sums of the charges, within
the limit, no subtraction has gone below zero and none of the errors that report a wrong account
can be returned. -/
theorem index_bytes_accounted {index : GlobalIndex} (hreach : indexMachine.Reachable index) :
    index.view.activeBytes = mapSum index.view.owners (fun _ ownerView =>
      ownerAccountingBytes + recordBytes ownerView.records) ∧
    index.view.stagingBytes = mapSum index.view.staging (fun _ staging =>
      ownerAccountingBytes + recordBytes staging.records) ∧
    index.view.activeBytes + index.view.stagingBytes ≤ index.byteLimit ∧
    index.view.underflow = false ∧
    (∀ owner viewId fromExclusive throughInclusive records, AccountsRight
      (index.view.applyDelta index.scope index.byteLimit owner viewId fromExclusive
        throughInclusive records).1) ∧
    ∀ owner sessionId fromExclusive throughInclusive records, AccountsRight
      (index.view.applySnapshotDelta index.scope index.byteLimit owner sessionId fromExclusive
        throughInclusive records).1 := by
  have h := counters_of_reachable hreach
  refine ⟨h.bytes.activeSum, ?_, h.bytes.total ▸ h.bytes.limit, h.noUnderflow, ?_, ?_⟩
  · rw [h.bytes.stagingSum]
    apply mapSum_congr
    intro owner
    cases hfound : index.view.staging[owner]? with
    | none => rw [sumAt_of_none hfound, sumAt_of_none hfound]
    | some staging =>
      rw [sumAt_of_getElem? hfound, sumAt_of_getElem? hfound, h.bytes.staged owner staging hfound]
  · intro owner viewId fromExclusive throughInclusive records
    exact (h.applyDelta index.scope owner viewId fromExclusive throughInclusive records).2
  · intro owner sessionId fromExclusive throughInclusive records
    exact (h.applySnapshotDelta index.scope owner sessionId fromExclusive throughInclusive
      records).2

theorem index_bytes_accounted_followed :
    0 < followedIndex.view.activeBytes ∧
      followedIndex.view.activeBytes = mapSum followedIndex.view.owners fun _ ownerView =>
        ownerAccountingBytes + recordBytes ownerView.records :=
  ⟨by decide +kernel, (index_bytes_accounted (reachable_calls (reachable_new _ _ _) _)).1⟩

/-! ### Coverage -/

theorem View.Sound.refreshCoverageCounts_eq
    (h : view.Sound byteLimit) : view.refreshCoverageCounts = view := by
  have hadmitted := (covered_refresh view).admitted.trans h.counts.admitted.symm
  have hfresh := (covered_refresh view).fresh.trans h.counts.fresh.symm
  calc view.refreshCoverageCounts
      = { view with
          admittedOwnerViews := view.refreshCoverageCounts.admittedOwnerViews
          freshExpectedOwnerViews := view.refreshCoverageCounts.freshExpectedOwnerViews } := rfl
    _ = view := by rw [hadmitted, hfresh]

/-- A view that is not retired belongs to an expected owner, so that counting the views and
counting the expected owners that have one is the same. -/
theorem View.Sound.admitted_expected {localOwner : Uuid}
    (h : view.Sound byteLimit) (hcoherent : view.Coherent localOwner) :
    view.admittedOwnerViews = view.expected.toList.countP fun owner =>
      view.owners[owner]?.any fun ownerView => !ownerView.retired := by
  let active (owner : Uuid) : Bool := view.owners[owner]?.any fun ownerView => !ownerView.retired
  have hactive : ∀ owner, active owner = true → owner ∈ view.owners ∧ owner ∈ view.expected := by
    intro owner howner
    cases hfound : view.owners[owner]? with
    | none => simp [active, hfound] at howner
    | some ownerView =>
      have hretired : ownerView.retired = false := by simpa [active, hfound] using howner
      refine ⟨?_, hcoherent.admitted owner ownerView hfound hretired⟩
      rw [mem_iff_isSome_getElem?, hfound]
      rfl
  have hkeys : (view.owners.keys.filter active).Perm (view.expected.toList.filter active) := by
    apply (List.perm_ext_iff_of_nodup (ExtTreeMap.nodup_keys.filter _)
      (nodup_toList view.expected |>.filter _)).mpr
    intro owner
    simp only [List.mem_filter, mem_keys, ExtTreeSet.mem_toList]
    exact ⟨fun h => ⟨(hactive owner h.2).2, h.2⟩, fun h => ⟨(hactive owner h.2).1, h.2⟩⟩
  calc view.admittedOwnerViews
      = view.owners.toList.countP (fun entry => !entry.2.retired) :=
        h.counts.admitted.trans (sum_map_toNat _ _)
    _ = view.owners.toList.countP (active ∘ Prod.fst) := by
        apply List.countP_congr
        intro entry hentry
        simp [active, mem_toList_iff_getElem?_eq_some.mp hentry]
    _ = (view.owners.keys.filter active).length := by
        rw [← List.countP_map, map_fst_toList_eq_keys, List.countP_eq_length_filter]
    _ = view.expected.toList.countP active := by
        rw [hkeys.length_eq, List.countP_eq_length_filter]

theorem View.Sound.coverage_iff (h : view.Sound byteLimit) (registrationValid : Bool) :
    view.coverage registrationValid = .completeAtWatermarks ↔
      registrationValid = true ∧ view.membershipRevision.isSome ∧
        ∀ owner ∈ view.expected, ∃ ownerView, view.owners[owner]? = some ownerView ∧
          ownerView.retired = false ∧ ownerView.fresh = true := by
  have hcount : view.freshExpectedOwnerViews = view.expected.size ↔
      ∀ owner ∈ view.expected, freshIn view.owners owner = true := by
    rw [h.counts.fresh, ← ExtTreeSet.length_toList, List.countP_eq_length]
    simp only [ExtTreeSet.mem_toList]
  have hfresh : ∀ owner, freshIn view.owners owner = true ↔
      ∃ ownerView, view.owners[owner]? = some ownerView ∧ ownerView.retired = false ∧
        ownerView.fresh = true := by
    intro owner
    simp [freshIn, Option.any_eq_true]
  simp only [← hfresh, ← hcount]
  unfold View.coverage
  cases registrationValid with
  | false => simp
  | true =>
    cases view.membershipRevision with
    | none => simp
    | some revision =>
      by_cases hall : view.freshExpectedOwnerViews = view.expected.size
      · simp [hall]
      · by_cases hsome : 0 < view.admittedOwnerViews <;> simp [hall, hsome]

/-- **Coverage.** In every reachable state the counters are what a recount gives, no decrement has
gone below zero, and coverage is complete exactly when the registration is valid, a revision of the
expected owners is set and each of them has a fresh view. -/
theorem index_coverage_counted {index : GlobalIndex} (hreach : indexMachine.Reachable index) :
    index.view.refreshCoverageCounts = index.view ∧
    index.view.admittedOwnerViews = (index.view.expected.toList.countP fun owner =>
      index.view.owners[owner]?.any fun ownerView => !ownerView.retired) ∧
    index.view.underflow = false ∧
    ∀ registrationValid, index.view.coverage registrationValid = .completeAtWatermarks ↔
      registrationValid = true ∧ index.view.membershipRevision.isSome ∧
        ∀ owner ∈ index.view.expected, ∃ ownerView, index.view.owners[owner]? = some ownerView ∧
          ownerView.retired = false ∧ ownerView.fresh = true := by
  have h := counters_of_reachable hreach
  exact ⟨h.refreshCoverageCounts_eq, h.admitted_expected (coherent_of_reachable hreach),
    h.noUnderflow, h.coverage_iff⟩

theorem index_coverage_counted_followed :
    followedIndex.view.coverage true = .completeAtWatermarks ∧
      followedIndex.view.refreshCoverageCounts = followedIndex.view :=
  ⟨by decide +kernel, (index_coverage_counted (reachable_calls (reachable_new _ _ _) _)).1⟩

end OrbitKV
