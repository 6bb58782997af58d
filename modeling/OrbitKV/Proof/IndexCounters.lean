import OrbitKV.Proof.IndexBytes

/-!
# The counters of the global index

A change at one owner changes a sum by what that owner contributed.
-/

namespace OrbitKV

open Std

/-! ### The invariant -/

/-- The accounts are the sums over the installed views and over the staging areas. Until the replay
begins the staged residences are those of the pages, in order. -/
structure Accounted (owners : ExtTreeMap Uuid OwnerView) (staging : ExtTreeMap Uuid StagingView)
    (activeBytes stagingBytes accountedBytes byteLimit : Nat) : Prop where
  activeSum : activeBytes = mapSum owners fun _ ownerView => ownerView.bytes
  stagingSum : stagingBytes = mapSum staging fun _ stagingView => stagingView.bytes
  staged : ∀ (owner : Uuid) (stagingView : StagingView), staging[owner]? = some stagingView →
    stagingView.bytes = ownerAccountingBytes + recordBytes stagingView.records
  ordered : ∀ (owner : Uuid) (stagingView : StagingView), staging[owner]? = some stagingView →
    stagingView.replayStarted = false → stagingView.Ordered
  total : accountedBytes = activeBytes + stagingBytes
  limit : accountedBytes ≤ byteLimit

def freshIn (owners : ExtTreeMap Uuid OwnerView) (owner : Uuid) : Bool :=
  owners[owner]?.any fun ownerView => !ownerView.retired && ownerView.fresh

structure Recounted (owners : ExtTreeMap Uuid OwnerView) (expected : ExtTreeSet Uuid)
    (admittedViews freshViews : Nat) : Prop where
  admitted : admittedViews = mapSum owners fun _ ownerView => (!ownerView.retired).toNat
  fresh : freshViews = expected.toList.countP (freshIn owners)

structure View.Sound (view : View) (byteLimit : Nat) : Prop where
  bytes : Accounted view.owners view.staging view.activeBytes view.stagingBytes
    view.accountedBytes byteLimit
  counts : Recounted view.owners view.expected view.admittedOwnerViews view.freshExpectedOwnerViews
  noUnderflow : view.underflow = false

/-! ### Accounts -/

section Accounts

variable {owners : ExtTreeMap Uuid OwnerView} {staging : ExtTreeMap Uuid StagingView}
  {activeBytes stagingBytes accountedBytes byteLimit : Nat} {owner : Uuid}
  {ownerView : OwnerView} {stagingView : StagingView}

section

variable (h : Accounted owners staging activeBytes stagingBytes accountedBytes byteLimit)
  {new : OwnerView}

include h

theorem Accounted.staging_le (hfound : staging[owner]? = some stagingView) :
    stagingView.bytes ≤ stagingBytes ∧ stagingView.bytes ≤ accountedBytes := by
  have hle := sumAt_le_mapSum staging (fun _ stagingView => stagingView.bytes) owner
  rw [sumAt_of_getElem? hfound, ← h.stagingSum] at hle
  have htotal := h.total
  omega

theorem Accounted.active_le (hfound : owners[owner]? = some ownerView) :
    ownerView.bytes ≤ activeBytes ∧ ownerView.bytes ≤ accountedBytes := by
  have hle := sumAt_le_mapSum owners (fun _ ownerView => ownerView.bytes) owner
  rw [sumAt_of_getElem? hfound, ← h.activeSum] at hle
  have htotal := h.total
  omega

theorem Accounted.owner_replace
    (hfound : owners[owner]? = some ownerView) {activeBytes' accountedBytes' : Nat}
    (hactive : activeBytes' + ownerView.bytes = activeBytes + new.bytes)
    (htotal : accountedBytes' = activeBytes' + stagingBytes)
    (hlimit : accountedBytes' ≤ byteLimit) :
    Accounted (owners.insert owner new) staging activeBytes' stagingBytes accountedBytes'
      byteLimit where
  activeSum := by
    have hinsert := mapSum_insert owners (fun _ ownerView => ownerView.bytes) owner new
    rw [sumAt_of_getElem? hfound, ← h.activeSum] at hinsert
    omega
  stagingSum := h.stagingSum
  staged := h.staged
  ordered := h.ordered
  total := htotal
  limit := hlimit

theorem Accounted.owner_same (hfound : owners[owner]? = some ownerView)
    (hrecords : new.records = ownerView.records) :
    Accounted (owners.insert owner new) staging activeBytes stagingBytes accountedBytes
      byteLimit := by
  apply h.owner_replace hfound _ h.total h.limit
  rw [OwnerView.bytes, OwnerView.bytes, hrecords]

theorem Accounted.owner_erase (hfound : owners[owner]? = some ownerView) :
    Accounted (owners.erase owner) staging (activeBytes - ownerView.bytes) stagingBytes
      (accountedBytes - ownerView.bytes) byteLimit where
  activeSum := by
    have herase := mapSum_erase owners (fun _ ownerView => ownerView.bytes) owner
    rw [sumAt_of_getElem? hfound, ← h.activeSum] at herase
    omega
  stagingSum := h.stagingSum
  staged := h.staged
  ordered := h.ordered
  total := by
    have hle := h.active_le hfound
    have htotal := h.total
    omega
  limit := (Nat.sub_le _ _).trans h.limit

theorem Accounted.staging_erase (hfound : staging[owner]? = some stagingView) :
    Accounted owners (staging.erase owner) activeBytes (stagingBytes - stagingView.bytes)
      (accountedBytes - stagingView.bytes) byteLimit where
  activeSum := h.activeSum
  stagingSum := by
    have herase := mapSum_erase staging (fun _ stagingView => stagingView.bytes) owner
    rw [sumAt_of_getElem? hfound, ← h.stagingSum] at herase
    omega
  staged := fun owner stagingView hstaging =>
    h.staged owner stagingView (getElem?_erase_eq_some hstaging).2
  ordered := fun owner stagingView hstaging =>
    h.ordered owner stagingView (getElem?_erase_eq_some hstaging).2
  total := by
    have hle := h.staging_le hfound
    have htotal := h.total
    omega
  limit := (Nat.sub_le _ _).trans h.limit

theorem Accounted.staging_insert
    {new : StagingView} {stagingBytes' accountedBytes' : Nat}
    (hbytes : new.bytes = ownerAccountingBytes + recordBytes new.records)
    (hordered : new.replayStarted = false → new.Ordered)
    (hstaging : stagingBytes' + sumAt staging (fun _ stagingView => stagingView.bytes) owner =
      stagingBytes + new.bytes)
    (htotal : accountedBytes' = activeBytes + stagingBytes')
    (hlimit : accountedBytes' ≤ byteLimit) :
    Accounted owners (staging.insert owner new) activeBytes stagingBytes' accountedBytes'
      byteLimit where
  activeSum := h.activeSum
  stagingSum := by
    have hinsert := mapSum_insert staging (fun _ stagingView => stagingView.bytes) owner new
    rw [← h.stagingSum] at hinsert
    omega
  staged := by
    intro other stagingView hfound
    obtain ⟨-, rfl⟩ | ⟨-, hold⟩ := getElem?_insert_eq_some hfound
    · exact hbytes
    · exact h.staged other stagingView hold
  ordered := by
    intro other stagingView hfound
    obtain ⟨-, rfl⟩ | ⟨-, hold⟩ := getElem?_insert_eq_some hfound
    · exact hordered
    · exact h.ordered other stagingView hold
  total := htotal
  limit := hlimit

theorem Accounted.commit (hfound : staging[owner]? = some stagingView)
    (hnone : owners[owner]? = none) (hrecords : new.records = stagingView.records) :
    Accounted (owners.insert owner new) (staging.erase owner) (activeBytes + stagingView.bytes)
      (stagingBytes - stagingView.bytes) accountedBytes byteLimit where
  activeSum := by
    have hinsert := mapSum_insert owners (fun _ ownerView => ownerView.bytes) owner new
    have hbytes : new.bytes = stagingView.bytes := by
      rw [OwnerView.bytes, hrecords, h.staged owner stagingView hfound]
    rw [sumAt_of_none hnone, ← h.activeSum, hbytes] at hinsert
    omega
  stagingSum := (h.staging_erase hfound).stagingSum
  staged := (h.staging_erase hfound).staged
  ordered := (h.staging_erase hfound).ordered
  total := by
    have hle := h.staging_le hfound
    have htotal := h.total
    omega
  limit := h.limit

end

end Accounts

/-! ### Coverage -/

section Coverage

variable {owners : ExtTreeMap Uuid OwnerView} {expected : ExtTreeSet Uuid}
  {admittedViews freshViews : Nat} {owner : Uuid} {ownerView : OwnerView}

def freshAt (owners : ExtTreeMap Uuid OwnerView) (expected : ExtTreeSet Uuid) (owner : Uuid) :
    Bool :=
  expected.contains owner && freshIn owners owner

theorem nodup_toList (expected : ExtTreeSet Uuid) : expected.toList.Nodup :=
  ExtTreeSet.distinct_toList.imp fun {_ _} hne heq => hne (compare_eq_iff_eq.mpr heq)

theorem countP_freshIn (owners owners' : ExtTreeMap Uuid OwnerView) (expected : ExtTreeSet Uuid)
    (owner : Uuid) (hother : ∀ other, other ≠ owner → owners'[other]? = owners[other]?) :
    expected.toList.countP (freshIn owners') + (freshAt owners expected owner).toNat =
      expected.toList.countP (freshIn owners) + (freshAt owners' expected owner).toNat := by
  have hmem : decide (owner ∈ expected.toList) = expected.contains owner := by
    rw [Bool.eq_iff_iff, decide_eq_true_eq, ExtTreeSet.mem_toList, ExtTreeSet.mem_iff_contains]
  have hcount := countP_add_toNat (p := freshIn owners') (q := freshIn owners)
    (nodup_toList expected) owner
    fun other hne => by rw [freshIn, freshIn, hother other hne]
  rwa [hmem] at hcount

theorem countP_freshIn_erase (owners : ExtTreeMap Uuid OwnerView) (expected : ExtTreeSet Uuid)
    (owner : Uuid) :
    expected.toList.countP (freshIn (owners.erase owner)) +
      (freshAt owners expected owner).toNat = expected.toList.countP (freshIn owners) := by
  have hcount := countP_freshIn owners (owners.erase owner) expected owner fun other hne => by
    rw [ExtTreeMap.getElem?_erase, if_neg fun heq => hne (compare_eq_iff_eq.mp heq).symm]
  have hnone : freshAt (owners.erase owner) expected owner = false := by
    simp [freshAt, freshIn]
  rwa [hnone, Bool.toNat_false, Nat.add_zero] at hcount

theorem freshAt_insert (owners : ExtTreeMap Uuid OwnerView) (expected : ExtTreeSet Uuid)
    (owner : Uuid) (ownerView : OwnerView) :
    freshAt (owners.insert owner ownerView) expected owner =
      (expected.contains owner && (!ownerView.retired && ownerView.fresh)) := by
  simp [freshAt, freshIn]

theorem freshAt_of_getElem? (hfound : owners[owner]? = some ownerView) :
    freshAt owners expected owner =
      (expected.contains owner && (!ownerView.retired && ownerView.fresh)) := by
  simp [freshAt, freshIn, hfound]

section

variable (h : Recounted owners expected admittedViews freshViews)

include h

theorem Recounted.fresh_le (owner : Uuid) : (freshAt owners expected owner).toNat ≤ freshViews := by
  have herase := countP_freshIn_erase owners expected owner
  rw [← h.fresh] at herase
  omega

theorem Recounted.admitted_le
    (hfound : owners[owner]? = some ownerView) : (!ownerView.retired).toNat ≤ admittedViews := by
  have hle := sumAt_le_mapSum owners (fun _ ownerView => (!ownerView.retired).toNat) owner
  rwa [sumAt_of_getElem? hfound, ← h.admitted] at hle

theorem Recounted.owner_insert
    {new : OwnerView} {admittedViews' freshViews' : Nat}
    (hadmitted : admittedViews' +
        sumAt owners (fun _ ownerView => (!ownerView.retired).toNat) owner =
      admittedViews + (!new.retired).toNat)
    (hfresh : freshViews' + (freshAt owners expected owner).toNat =
      freshViews + (expected.contains owner && (!new.retired && new.fresh)).toNat) :
    Recounted (owners.insert owner new) expected admittedViews' freshViews' where
  admitted := by
    have hinsert := mapSum_insert owners (fun _ ownerView => (!ownerView.retired).toNat) owner new
    rw [← h.admitted] at hinsert
    omega
  fresh := by
    have hcount := countP_freshIn owners (owners.insert owner new) expected owner
      fun other hne => getElem?_insert_of_ne hne.symm
    rw [freshAt_insert, ← h.fresh] at hcount
    omega

theorem Recounted.owner_refresh
    (hfound : owners[owner]? = some ownerView) {new : OwnerView} {freshViews' : Nat}
    (hretired : new.retired = ownerView.retired)
    (hfresh : freshViews' + (freshAt owners expected owner).toNat =
      freshViews + (expected.contains owner && (!new.retired && new.fresh)).toNat) :
    Recounted (owners.insert owner new) expected admittedViews freshViews' := by
  apply h.owner_insert _ hfresh
  rw [sumAt_of_getElem? hfound, hretired]

theorem Recounted.owner_erase (hfound : owners[owner]? = some ownerView) :
    Recounted (owners.erase owner) expected (admittedViews - (!ownerView.retired).toNat)
      (freshViews - (freshAt owners expected owner).toNat) where
  admitted := by
    have herase := mapSum_erase owners (fun _ ownerView => (!ownerView.retired).toNat) owner
    rw [sumAt_of_getElem? hfound, ← h.admitted] at herase
    omega
  fresh := by
    have herase := countP_freshIn_erase owners expected owner
    rw [← h.fresh] at herase
    omega

end

end Coverage

end OrbitKV
