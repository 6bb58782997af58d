import OrbitKV.Proof.IndexRecords

/-!
# Slots of the inverted map

A slot is what the inverted map holds for one owner at one residence; every loop is described by
what it does to one slot.
-/

namespace OrbitKV

open Std ExtTreeMap

variable {owner owner' : Uuid}

def slot (blocks : ExtTreeMap StateKey (List Entry)) (owner : Uuid) (residence : Residence) :
    List Entry :=
  (blocks[residence.1]?.getD []).filter fun entry =>
    entry.owner = owner && entry.metadata.medium = residence.2

def entryOf (owner : Uuid) (record : InventoryRecord) : Option Entry :=
  record.metadata.map fun metadata => ⟨owner, record.sequence, metadata⟩

theorem slot_removeBlock_self (blocks : ExtTreeMap StateKey (List Entry)) (owner : Uuid)
    (residence : Residence) : slot (removeBlock blocks owner residence) owner residence = [] := by
  unfold slot removeBlock
  cases hentries : blocks[residence.1]? with
  | none => simp [hentries]
  | some entries =>
    simp only
    split
    · simp
    · simp [List.filter_filter]

theorem slot_removeBlock_other (blocks : ExtTreeMap StateKey (List Entry)) (owner owner' : Uuid)
    (residence residence' : Residence) (hne : owner' ≠ owner ∨ residence' ≠ residence) :
    slot (removeBlock blocks owner residence) owner' residence' = slot blocks owner' residence' := by
  unfold slot removeBlock
  cases hentries : blocks[residence.1]? with
  | none => rfl
  | some entries =>
    by_cases hkey : residence'.1 = residence.1
    · have hdistinct : ∀ entry : Entry, entry.owner = owner' → entry.metadata.medium = residence'.2 →
          ¬(entry.owner = owner ∧ entry.metadata.medium = residence.2) := by
        rintro entry rfl hmedium ⟨howner, hmedium'⟩
        rcases hne with hne | hne
        · exact hne howner
        · exact hne (Prod.ext hkey (hmedium.symm.trans hmedium'))
      have hfilter : (entries.filter fun entry =>
            !(entry.owner = owner && entry.metadata.medium = residence.2)).filter
            (fun entry => entry.owner = owner' && entry.metadata.medium = residence'.2) =
          entries.filter
            (fun entry => entry.owner = owner' && entry.metadata.medium = residence'.2) := by
        rw [List.filter_filter]
        refine List.filter_congr fun entry _ => ?_
        by_cases hslot : entry.owner = owner' ∧ entry.metadata.medium = residence'.2
        · have hkept := hdistinct entry hslot.1 hslot.2
          rw [hslot.1, hslot.2, not_and_or] at hkept
          simpa [hslot.1, hslot.2] using hkept
        · simp only [not_and] at hslot
          simpa using fun howner hmedium => absurd hmedium (hslot howner)
      simp only [hkey, hentries, Option.getD_some]
      split
      case isTrue hempty =>
        rw [← hfilter, List.isEmpty_iff.mp hempty]
        simp
      case isFalse => simpa using hfilter
    · simp only
      split <;> simp [getElem?_insert, getElem?_erase, Ne.symm hkey]

theorem slot_insertBlock_self (blocks : ExtTreeMap StateKey (List Entry)) (owner : Uuid)
    {record : InventoryRecord} {residence : Residence}
    (hresidence : record.residence? = some residence) (hpresent : record.present = true) :
    slot (insertBlock blocks owner record) owner residence =
      slot blocks owner residence ++ (entryOf owner record).toList := by
  obtain ⟨metadata, hmetadata, rfl⟩ := Option.map_eq_some_iff.mp hresidence
  simp [slot, insertBlock, entryOf, hmetadata, hpresent]

theorem slot_insertBlock_other (blocks : ExtTreeMap StateKey (List Entry)) (owner owner' : Uuid)
    {record : InventoryRecord} {residence residence' : Residence}
    (hresidence : record.residence? = some residence)
    (hne : owner' ≠ owner ∨ residence' ≠ residence) :
    slot (insertBlock blocks owner record) owner' residence' = slot blocks owner' residence' := by
  obtain ⟨metadata, hmetadata, rfl⟩ := Option.map_eq_some_iff.mp hresidence
  unfold slot insertBlock
  rw [hmetadata]
  split
  · rfl
  · by_cases hkey : record.key = residence'.1
    · have hnot : ¬(owner = owner' ∧ metadata.medium = residence'.2) := by
        rintro ⟨rfl, hmedium⟩
        rcases hne with hne | hne
        · exact hne rfl
        · exact hne (Prod.ext hkey.symm hmedium.symm)
      simpa [hkey, List.filter_append, List.filter_cons] using hnot
    · simp [getElem?_insert, hkey]

def NoEmptyBlock (blocks : ExtTreeMap StateKey (List Entry)) : Prop :=
  ∀ (key : StateKey) (entries : List Entry), blocks[key]? = some entries → entries ≠ []

variable {blocks : ExtTreeMap StateKey (List Entry)}

theorem NoEmptyBlock.removeBlock
    (hblocks : NoEmptyBlock blocks) (owner : Uuid) (residence : Residence) :
    NoEmptyBlock (removeBlock blocks owner residence) := by
  unfold OrbitKV.removeBlock
  split
  · exact hblocks
  · simp only
    split
    case isTrue =>
      intro key entries hentries
      exact hblocks key entries (getElem?_erase_eq_some hentries).2
    case isFalse hkept =>
      intro key entries hentries
      obtain ⟨-, rfl⟩ | ⟨-, hold⟩ := getElem?_insert_eq_some hentries
      · simpa [List.isEmpty_iff] using hkept
      · exact hblocks key entries hold

theorem NoEmptyBlock.insertBlock
    (hblocks : NoEmptyBlock blocks) (owner : Uuid) (record : InventoryRecord) :
    NoEmptyBlock (insertBlock blocks owner record) := by
  unfold OrbitKV.insertBlock
  split
  · exact hblocks
  · split
    · exact hblocks
    · intro key entries hentries
      obtain ⟨-, rfl⟩ | ⟨-, hold⟩ := getElem?_insert_eq_some hentries
      · simp
      · exact hblocks key entries hold

/-! ### The loops over the inverted map -/

theorem slot_foldl_removeBlock (blocks : ExtTreeMap StateKey (List Entry)) (owner : Uuid)
    (residences : List Residence) (residence : Residence) :
    slot (residences.foldl (removeBlock · owner) blocks) owner residence =
      if residence ∈ residences then [] else slot blocks owner residence := by
  induction residences generalizing blocks with
  | nil => simp
  | cons head residences ih =>
    rw [List.foldl_cons, ih]
    by_cases hhead : residence = head
    · subst hhead
      simp [slot_removeBlock_self]
    · simp [hhead, slot_removeBlock_other _ _ _ _ _ (.inr hhead)]

theorem slot_foldl_removeBlock_other (blocks : ExtTreeMap StateKey (List Entry))
    (hne : owner' ≠ owner) (residences : List Residence) (residence : Residence) :
    slot (residences.foldl (removeBlock · owner) blocks) owner' residence =
      slot blocks owner' residence :=
  foldl_observe (slot · owner' residence)
    (fun blocks head _ => slot_removeBlock_other blocks owner owner' head residence (.inl hne))
    blocks

theorem NoEmptyBlock.foldl_removeBlock
    (hblocks : NoEmptyBlock blocks) (owner : Uuid) (residences : List Residence) :
    NoEmptyBlock (residences.foldl (OrbitKV.removeBlock · owner) blocks) :=
  List.foldlRecOn residences _ hblocks fun _ hb residence _ => hb.removeBlock owner residence

theorem slot_insertBlocks (blocks : ExtTreeMap StateKey (List Entry)) (owner : Uuid)
    {records : RecordMap} {bound : Nat}
    (hrecords : Advertised records bound) (residence : Residence) :
    slot (View.insertBlocks blocks owner records) owner residence =
      slot blocks owner residence ++ (records[residence]?.bind (entryOf owner)).toList := by
  have hstep : KeyedStep (fun blocks (entry : Residence × InventoryRecord) =>
        insertBlock blocks owner entry.2)
      (slot · owner) (fun _ record entries => entries ++ (entryOf owner record).toList)
      records.toList := by
    constructor
    · intro blocks residence record hmem
      rw [mem_toList_iff_getElem?_eq_some] at hmem
      exact slot_insertBlock_self blocks owner (hrecords.residence _ _ hmem)
        (hrecords.present _ _ hmem)
    · intro blocks residence record residence' hmem hne
      rw [mem_toList_iff_getElem?_eq_some] at hmem
      exact slot_insertBlock_other blocks owner owner (hrecords.residence _ _ hmem) (.inr hne)
  rw [View.insertBlocks, hstep.foldl_toList]
  cases records[residence]? <;> simp

theorem slot_insertBlocks_other (blocks : ExtTreeMap StateKey (List Entry))
    (hne : owner' ≠ owner) {records : RecordMap} {bound : Nat}
    (hrecords : Advertised records bound) (residence : Residence) :
    slot (View.insertBlocks blocks owner records) owner' residence =
      slot blocks owner' residence := by
  refine foldl_observe (slot · owner' residence) (fun blocks entry hmem => ?_) blocks
  rw [mem_toList_iff_getElem?_eq_some] at hmem
  exact slot_insertBlock_other blocks owner owner' (hrecords.residence _ _ hmem) (.inl hne)

theorem NoEmptyBlock.insertBlocks (hblocks : NoEmptyBlock blocks) (owner : Uuid)
    (records : RecordMap) : NoEmptyBlock (View.insertBlocks blocks owner records) :=
  List.foldlRecOn _ _ hblocks fun _ hb entry _ => hb.insertBlock owner entry.2

def entriesAfter (owner : Uuid) (record : InventoryRecord) : List Entry :=
  if record.present then (entryOf owner record).toList else []

theorem slot_updateBlocks (blocks : ExtTreeMap StateKey (List Entry)) (owner : Uuid)
    {latest : RecordMap} (hlatest : Located latest) (residence : Residence) :
    slot (View.updateBlocks blocks owner latest.toList) owner residence =
      latest[residence]?.elim (slot blocks owner residence) (entriesAfter owner) := by
  suffices hstep : KeyedStep (fun blocks update =>
        let removed := removeBlock blocks owner update.1
        if update.2.present then insertBlock removed owner update.2 else removed)
      (slot · owner) (fun _ record _ => entriesAfter owner record) latest.toList from
    hstep.foldl_toList blocks residence
  constructor
  · intro blocks residence record hmem
    rw [mem_toList_iff_getElem?_eq_some] at hmem
    unfold entriesAfter
    cases hpresent : record.present
    · simp [slot_removeBlock_self]
    · simp [slot_insertBlock_self _ _ (hlatest _ _ hmem) hpresent, slot_removeBlock_self]
  · intro blocks residence record residence' hmem hne
    rw [mem_toList_iff_getElem?_eq_some] at hmem
    have hremove := slot_removeBlock_other blocks owner owner _ _ (.inr hne)
    cases hpresent : record.present
    · simpa using hremove
    · simp [slot_insertBlock_other _ _ _ (hlatest _ _ hmem) (.inr hne), hremove]

theorem slot_updateBlocks_other (blocks : ExtTreeMap StateKey (List Entry)) (hne : owner' ≠ owner)
    {latest : RecordMap} (hlatest : Located latest) (residence : Residence) :
    slot (View.updateBlocks blocks owner latest.toList) owner' residence =
      slot blocks owner' residence := by
  refine foldl_observe (slot · owner' residence) (fun blocks update hmem => ?_) blocks
  rw [mem_toList_iff_getElem?_eq_some] at hmem
  have hremove := slot_removeBlock_other blocks owner owner' update.1 residence (.inl hne)
  cases hpresent : update.2.present
  · simpa using hremove
  · simp [slot_insertBlock_other _ _ _ (hlatest _ _ hmem) (.inl hne), hremove]

theorem NoEmptyBlock.updateBlocks (hblocks : NoEmptyBlock blocks) (owner : Uuid)
    (updates : List (Residence × InventoryRecord)) :
    NoEmptyBlock (View.updateBlocks blocks owner updates) := by
  refine List.foldlRecOn updates _ hblocks fun _ hb update _ => ?_
  simp only
  split
  · exact (hb.removeBlock owner update.1).insertBlock owner update.2
  · exact hb.removeBlock owner update.1

end OrbitKV
