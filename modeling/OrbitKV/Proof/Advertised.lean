import OrbitKV.Storage.Inventory

/-! # What a change does to the residents -/

namespace OrbitKV

open Std Inventory

def Inventory.Described (inventory : Inventory) : Prop :=
  ∀ (residence : Residence) (record : InventoryRecord),
    inventory.residents[residence]? = some record → record.metadata.isSome

theorem Inventory.described_new (byteLimit : Nat) : (new byteLimit).Described := by
  simp [Described, new]

theorem Inventory.residentMetadata_isSome_iff {inventory : Inventory}
    (hdescribed : inventory.Described) (residence : Residence) :
    (inventory.residentMetadata residence).isSome ↔ residence ∈ inventory.residents := by
  rw [ExtTreeMap.mem_iff_isSome_getElem?, residentMetadata]
  cases hrecord : inventory.residents[residence]? with
  | none => simp
  | some record => simpa using hdescribed residence record hrecord

theorem Inventory.medium_of_change {inventory inventory' : Inventory} {key : StateKey}
    {medium : ReplicaMedium} {metadata : Option ReplicaMetadata}
    (hok : inventory.change key medium metadata = .ok inventory') :
    ∀ m ∈ metadata, m.medium = medium := by
  intro m hm
  by_contra hne
  have hmismatch : metadata.any (·.medium ≠ medium) = true := by
    rw [Option.mem_def.mp hm]
    simpa using hne
  unfold change at hok
  rw [if_pos hmismatch] at hok
  split at hok <;> cases hok

/-- **One change.** It can only fail for want of a sequence number; otherwise the residence is
recorded exactly if metadata was given, and every other one as before. -/
theorem Inventory.change_cases {inventory : Inventory} (hdescribed : inventory.Described)
    (key : StateKey) {medium : ReplicaMedium} (hstored : medium.isStored = true)
    {metadata : Option ReplicaMetadata} (hmedium : ∀ m ∈ metadata, m.medium = medium) :
    inventory.change key medium metadata = .error .sequenceExhausted ∨
      ∃ inventory', inventory.change key medium metadata = .ok inventory' ∧
        inventory'.Described ∧ ∀ residence, residence ∈ inventory'.residents ↔
          if residence = (key, medium) then metadata.isSome = true
          else residence ∈ inventory.residents := by
  have hmismatch : ¬metadata.any (·.medium ≠ medium) = true := by
    cases metadata with
    | none => simp
    | some m => simp [hmedium m rfl]
  rw [change, hstored, if_neg (by simp), if_neg hmismatch]
  dsimp only
  split
  case isTrue hsame =>
    refine .inr ⟨inventory, rfl, hdescribed, fun residence => ?_⟩
    split
    case isTrue heq =>
      rw [heq, ← hsame, residentMetadata_isSome_iff hdescribed]
    case isFalse => rfl
  split
  case isFalse => exact .inl rfl
  case isTrue =>
    refine .inr ⟨_, rfl, ?_, fun residence => ?_⟩
    · intro residence record hrecord
      cases metadata with
      | none =>
        simp only [append, nextRecord, Option.isSome_none,
          Bool.false_eq_true, if_false, ExtTreeMap.getElem?_erase] at hrecord
        split at hrecord
        · cases hrecord
        · exact hdescribed residence record hrecord
      | some m =>
        simp only [append, nextRecord, Option.isSome_some, if_true,
          ExtTreeMap.getElem?_insert] at hrecord
        split at hrecord
        · cases hrecord
          rfl
        · exact hdescribed residence record hrecord
    · cases metadata with
      | none =>
        simp only [append, nextRecord, Option.isSome_none,
          Bool.false_eq_true, if_false, ExtTreeMap.mem_erase, ne_eq, Std.compare_eq_iff_eq]
        split
        case isTrue heq => simp [heq]
        case isFalse hne => simp [Ne.symm hne]
      | some m =>
        simp only [append, nextRecord, Option.isSome_some, if_true,
          ExtTreeMap.mem_insert, Std.compare_eq_iff_eq]
        split
        case isTrue heq => simp [heq]
        case isFalse hne => simp [Ne.symm hne]

end OrbitKV
