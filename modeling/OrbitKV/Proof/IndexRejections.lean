import OrbitKV.Proof.IndexAccounting

/-!
# Rejected updates

The methods that apply a delta charge it after the records have been replaced. A failure there would
leave a changed view; the accounts never run into one.
-/

namespace OrbitKV

open Std

def KeepsUnless {α : Type} (accepted : α → Prop) (view : View)
    (outcome : Except String α × View) : Prop :=
  (∃ a, outcome.1 = .ok a ∧ accepted a) ∨ outcome.2 = view

section Outcomes

variable {α : Type} {accepted : α → Prop} {view : View} {outcome : Except String α × View}
  (hkeeps : KeepsUnless accepted view outcome)

include hkeeps

theorem KeepsUnless.unchanged (hrefused : ∀ a, outcome.1 = .ok a → ¬accepted a) : outcome.2 = view := by
  obtain ⟨a, hok, haccepted⟩ | hsame := hkeeps
  · exact absurd haccepted (hrefused a hok)
  · exact hsame

theorem KeepsUnless.of_error {error : String} (herror : outcome.1 = .error error) :
    outcome.2 = view := by
  apply hkeeps.unchanged
  intro a hok
  rw [herror] at hok
  cases hok

end Outcomes

section Methods

variable (view : View) (byteLimit : Nat) (scope : InventoryScope)

theorem View.confirmProgress_keeps (owner viewId : Uuid) (appliedSequence : Nat) :
    KeepsUnless (fun _ => True) view (view.confirmProgress owner viewId appliedSequence) := by
  unfold View.confirmProgress
  split
  · exact .inr rfl
  split
  · exact .inr rfl
  · exact .inl ⟨(), rfl, trivial⟩

theorem View.applySnapshotPage_keeps (owner sessionId snapshotId : Uuid) (pageNumber : Nat)
    (records : List InventoryRecord) :
    KeepsUnless (fun _ => True) view (view.applySnapshotPage scope byteLimit owner sessionId
      snapshotId pageNumber records) := by
  unfold View.applySnapshotPage
  iterate 6
    split
    · exact .inr rfl
  · exact .inl ⟨(), rfl, trivial⟩

variable {view byteLimit}

theorem View.Sound.applySnapshotDelta_keeps (h : view.Sound byteLimit) (owner sessionId : Uuid)
    (fromExclusive throughInclusive : Nat) (records : List InventoryRecord) :
    KeepsUnless (fun _ => True) view (view.applySnapshotDelta scope byteLimit owner sessionId
      fromExclusive throughInclusive records) := by
  unfold View.applySnapshotDelta
  split
  · exact .inr rfl
  next staging hfound =>
  split
  · exact .inr rfl
  split
  · exact .inr rfl
  next delta updates hvalid =>
  -- each of the three charges that follow the replacement of the records can be made
  obtain ⟨bytes, stagingBytes, accountedBytes, hbytes, hstaging, haccounted, -⟩ :=
    h.replay hfound (validateDelta_bytes hvalid)
  split
  · exact .inr rfl
  · left
    simp [hbytes, hstaging, haccounted]

theorem View.Sound.applyDelta_keeps (h : view.Sound byteLimit) (owner viewId : Uuid)
    (fromExclusive throughInclusive : Nat) (records : List InventoryRecord) :
    KeepsUnless (· = .applied) view (view.applyDelta scope byteLimit owner viewId fromExclusive
      throughInclusive records) := by
  unfold View.applyDelta
  split
  · exact .inr rfl
  next ownerView hfound =>
  iterate 5
    split
    · exact .inr rfl
  next delta updates hvalid =>
  obtain ⟨activeBytes, accountedBytes, hactive, haccounted⟩ :=
    h.charge hfound (validateDelta_bytes hvalid)
  split
  · exact .inr rfl
  · left
    simp [View.addFresh, hactive, haccounted]

theorem View.Sound.commitSnapshot_error (h : view.Sound byteLimit) {admitted : Bool}
    {owner sessionId snapshotId viewId : Uuid} {throughSequence pageCount : Nat} {error : String}
    (herror : (view.commitSnapshot admitted owner sessionId snapshotId viewId throughSequence
      pageCount).1 = .error error) :
    (view.commitSnapshot admitted owner sessionId snapshotId viewId throughSequence
        pageCount).2 = view ∨
      (view.expected.contains owner = false ∨ admitted = false) ∧
        ∃ staging, view.staging[owner]? = some staging ∧
          staging.bytes ≤ view.stagingBytes ∧ staging.bytes ≤ view.accountedBytes ∧
          (view.commitSnapshot admitted owner sessionId snapshotId viewId throughSequence
            pageCount).2 = { view with
              staging := view.staging.erase owner
              stagingBytes := view.stagingBytes - staging.bytes
              accountedBytes := view.accountedBytes - staging.bytes } := by
  unfold View.commitSnapshot at herror ⊢
  split
  · exact .inl rfl
  next staging hfound =>
  rw [hfound] at herror
  dsimp only at herror ⊢
  split
  · exact .inl rfl
  next hcomplete =>
  rw [if_neg hcomplete] at herror
  split
  next hgone =>
    right
    obtain ⟨hstaging, haccounted⟩ := h.bytes.staging_le hfound
    refine ⟨by simpa using hgone, staging, hfound, hstaging, haccounted, ?_⟩
    simp [View.dropStaging, View.releaseStagingBytes, h.noUnderflow, hstaging, haccounted]
  next hadmitted =>
    rw [if_neg hadmitted] at herror
    cases herror

end Methods

/-- **Rejected updates are no-ops.** In every reachable index, a page, a delta of a snapshot, a delta
or a confirmation that returns an error, `Duplicate` or `Overlap` leaves the whole view as it was, and
so does a commit that fails, except that it drops the staging of an owner that is no longer
admitted. -/
theorem rejected_updates_unchanged {index : GlobalIndex} (hreach : indexMachine.Reachable index) :
    (∀ owner sessionId snapshotId pageNumber records error,
      (index.view.applySnapshotPage index.scope index.byteLimit owner sessionId snapshotId pageNumber
        records).1 = .error error →
      (index.view.applySnapshotPage index.scope index.byteLimit owner sessionId snapshotId pageNumber
        records).2 = index.view) ∧
    (∀ owner sessionId fromExclusive throughInclusive records error,
      (index.view.applySnapshotDelta index.scope index.byteLimit owner sessionId fromExclusive
        throughInclusive records).1 = .error error →
      (index.view.applySnapshotDelta index.scope index.byteLimit owner sessionId fromExclusive
        throughInclusive records).2 = index.view) ∧
    (∀ owner viewId fromExclusive throughInclusive records,
      (index.view.applyDelta index.scope index.byteLimit owner viewId fromExclusive throughInclusive
        records).1 ≠ .ok .applied →
      (index.view.applyDelta index.scope index.byteLimit owner viewId fromExclusive throughInclusive
        records).2 = index.view) ∧
    (∀ owner viewId appliedSequence error,
      (index.view.confirmProgress owner viewId appliedSequence).1 = .error error →
      (index.view.confirmProgress owner viewId appliedSequence).2 = index.view) ∧
    ∀ now owner sessionId snapshotId viewId throughSequence pageCount error,
      (index.view.commitSnapshot (index.membership.resolve now owner).isSome owner sessionId
        snapshotId viewId throughSequence pageCount).1 = .error error →
      (index.view.commitSnapshot (index.membership.resolve now owner).isSome owner sessionId
          snapshotId viewId throughSequence pageCount).2 = index.view ∨
        (index.view.expected.contains owner = false ∨
            (index.membership.resolve now owner).isSome = false) ∧
          ∃ staging, index.view.staging[owner]? = some staging ∧
            staging.bytes ≤ index.view.stagingBytes ∧ staging.bytes ≤ index.view.accountedBytes ∧
            (index.view.commitSnapshot (index.membership.resolve now owner).isSome owner sessionId
              snapshotId viewId throughSequence pageCount).2 = { index.view with
                staging := index.view.staging.erase owner
                stagingBytes := index.view.stagingBytes - staging.bytes
                accountedBytes := index.view.accountedBytes - staging.bytes } := by
  have h := counters_of_reachable hreach
  refine ⟨?_, ?_, ?_, ?_, ?_⟩
  · intro owner sessionId snapshotId pageNumber records error
    apply KeepsUnless.of_error
    exact View.applySnapshotPage_keeps _ _ _ owner sessionId snapshotId pageNumber records
  · intro owner sessionId fromExclusive throughInclusive records error
    apply KeepsUnless.of_error
    exact h.applySnapshotDelta_keeps _ owner sessionId fromExclusive throughInclusive records
  · intro owner viewId fromExclusive throughInclusive records hrefused
    apply (h.applyDelta_keeps _ owner viewId fromExclusive throughInclusive records).unchanged
    rintro a hok rfl
    exact hrefused hok
  · intro owner viewId appliedSequence error
    apply KeepsUnless.of_error
    exact View.confirmProgress_keeps _ owner viewId appliedSequence
  · intro now owner sessionId snapshotId viewId throughSequence pageCount error
    exact h.commitSnapshot_error

/-- A delta that the followed index has already applied. -/
theorem rejected_updates_unchanged_followed :
    (followedIndex.view.applyDelta followedIndex.scope followedIndex.byteLimit 2 7 0 1 []).1 =
        .ok .duplicate ∧
      (followedIndex.view.applyDelta followedIndex.scope followedIndex.byteLimit 2 7 0 1 []).2 =
        followedIndex.view := by
  have hduplicate : (followedIndex.view.applyDelta followedIndex.scope followedIndex.byteLimit 2 7 0 1
      []).1 = .ok .duplicate := by decide +kernel
  have hreach : indexMachine.Reachable followedIndex := reachable_calls (reachable_new _ _ _) _
  refine ⟨hduplicate, (rejected_updates_unchanged hreach).2.2.1 2 7 0 1 [] ?_⟩
  rw [hduplicate]
  simp

end OrbitKV
