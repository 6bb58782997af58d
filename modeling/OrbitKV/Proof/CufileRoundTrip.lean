import OrbitKV.Proof.CufilePlans

/-! # Written bytes are read back -/

namespace OrbitKV

variable {offset address : Nat} {batches : List IoBatch}

def CopyRange.HasOffset (copy : CopyRange) (offset : Nat) : Prop :=
  copy.fileOffset ≤ offset ∧ offset < copy.fileOffset + copy.bytes

def CopyRange.HasAddress (copy : CopyRange) (address : Nat) : Prop :=
  copy.device ≤ address ∧ address < copy.device + copy.bytes

def CopyRange.FileApart (copy other : CopyRange) : Prop :=
  ∀ offset, ¬(copy.HasOffset offset ∧ other.HasOffset offset)

def CopyRange.DeviceApart (copy other : CopyRange) : Prop :=
  ∀ address, ¬(copy.HasAddress address ∧ other.HasAddress address)

instance : Std.Symm CopyRange.FileApart :=
  ⟨fun _ _ hapart offset hboth => hapart offset hboth.symm⟩

instance : Std.Symm CopyRange.DeviceApart :=
  ⟨fun _ _ hapart address hboth => hapart address hboth.symm⟩

def CopyRange.SameFile (copy other : CopyRange) : Prop :=
  other.fileOffset = copy.fileOffset ∧ other.bytes = copy.bytes

variable {β : Type}

/-! ### Copies that do not meet -/

variable {copy : CopyRange} {copies : List CopyRange} {batch : IoBatch}

theorem CopyRange.Maps.hasOffset (hmaps : copy.Maps offset address) : copy.HasOffset offset := by
  obtain ⟨k, hk, rfl, rfl⟩ := hmaps
  exact ⟨Nat.le_add_right _ _, Nat.add_lt_add_left hk _⟩

theorem CopyRange.Maps.hasAddress (hmaps : copy.Maps offset address) : copy.HasAddress address := by
  obtain ⟨k, hk, rfl, rfl⟩ := hmaps
  exact ⟨Nat.le_add_right _ _, Nat.add_lt_add_left hk _⟩

theorem CopyRange.HasOffset.maps (hoffset : copy.HasOffset offset) :
    copy.Maps offset (copy.device + (offset - copy.fileOffset)) := by
  obtain ⟨hstart, hstop⟩ := hoffset
  exact ⟨offset - copy.fileOffset, by omega, by omega, rfl⟩

theorem CopyRange.HasAddress.maps (haddress : copy.HasAddress address) :
    copy.Maps (copy.fileOffset + (address - copy.device)) address := by
  obtain ⟨hstart, hstop⟩ := haddress
  exact ⟨address - copy.device, by omega, rfl, by omega⟩

theorem address_unique (hapart : copies.Pairwise CopyRange.FileApart)
    {copy other : CopyRange} (hcopy : copy ∈ copies) (hother : other ∈ copies)
    {address' : Nat} (hmaps : copy.Maps offset address)
    (hmaps' : other.Maps offset address') : address' = address := by
  have hsame : copy = other := by
    by_contra hne
    exact hapart.forall hcopy hother hne offset ⟨hmaps.hasOffset, hmaps'.hasOffset⟩
  subst hsame
  obtain ⟨k, hk, hk_offset, rfl⟩ := hmaps
  obtain ⟨k', hk', hk_offset', rfl⟩ := hmaps'
  omega

theorem offset_unique (hapart : copies.Pairwise CopyRange.DeviceApart)
    {copy other : CopyRange} (hcopy : copy ∈ copies) (hother : other ∈ copies)
    {offset' : Nat} (hmaps : copy.Maps offset address)
    (hmaps' : other.Maps offset' address) : offset' = offset := by
  have hsame : copy = other := by
    by_contra hne
    exact hapart.forall hcopy hother hne address ⟨hmaps.hasAddress, hmaps'.hasAddress⟩
  subst hsame
  obtain ⟨k, hk, rfl, hk_address⟩ := hmaps
  obtain ⟨k', hk', rfl, hk_address'⟩ := hmaps'
  omega

/-! ### Writes -/

def IoBatch.written (zero : β) (memory : Nat → β) (slot : Written β) (batch : IoBatch) :
    Written β :=
  let cleared := Move.apply (fun _ => zero) slot.staging ⟨0, 0, batch.bytes⟩
  let gathered := moveAll memory batch.gather cleared
  { staging := gathered
    file := Move.apply gathered slot.file ⟨0, batch.fileOffset, batch.bytes⟩ }

theorem submitWrite_eq (hvalid : batch.validate = .ok ()) (zero : β)
    (memory : Nat → β) (slot : Written β) :
    submitWrite zero memory slot batch = .ok (batch.written zero memory slot) := by
  unfold submitWrite
  rw [hvalid]
  rfl

theorem written_of_covers
    (hgathers : batch.Gathers copies)
    (hcovers : batch.fileOffset ≤ offset ∧ offset < batch.fileOffset + batch.bytes)
    {copy : CopyRange} (hcopy : copy ∈ copies) (hmaps : copy.Maps offset address)
    (hunique : ∀ piece ∈ batch.copies, ∀ address', piece.Maps offset address' →
      address' = address) (zero : β) (memory : Nat → β) (slot : Written β) :
    (batch.written zero memory slot).file offset = memory address := by
  have hfile : (batch.written zero memory slot).file offset =
      (batch.written zero memory slot).staging (0 + (offset - batch.fileOffset)) :=
    Move.apply_of_covers hcovers
  rw [hfile, Nat.zero_add]
  apply moveAll_of_agree
  · intro move hmove hmove_covers
    obtain ⟨piece, hpiece, rfl⟩ := List.mem_map.mp hmove
    have hinside := hgathers.fits.inside piece hpiece
    obtain ⟨hfrom, hto⟩ := hmove_covers
    dsimp only at hfrom hto ⊢
    congr 1
    apply hunique piece hpiece
    exact ⟨offset - piece.fileOffset, by omega, by omega, by omega⟩
  · obtain ⟨piece, hpiece, k, hk, rfl, -⟩ :=
      hgathers.maps copy hcopy offset address hmaps hcovers.1 hcovers.2
    have hinside := hgathers.fits.inside piece hpiece
    refine ⟨_, List.mem_map_of_mem hpiece, ?_⟩
    constructor <;> dsimp only <;> omega

theorem runWrites_spec {order : List IoBatch} (hapart : copies.Pairwise CopyRange.FileApart)
    (hgathers : ∀ batch ∈ batches, batch.Gathers copies) (hparts : Partitioned copies batches)
    (horder : order.Perm batches) (zero : β) (memory : Nat → β) (slot : Written β) :
    ∃ slot', runWrites zero memory order slot = .ok slot' ∧
      ∀ copy ∈ copies, ∀ offset address, copy.Maps offset address →
        slot'.file offset = memory address := by
  refine ⟨order.foldl (IoBatch.written zero memory) slot, ?_, ?_⟩
  · apply foldlM_eq_foldl
    intro batch hbatch slot
    have hbatch := hgathers batch (horder.mem_iff.mp hbatch)
    exact submitWrite_eq (hbatch.fits.validate hbatch.pos) zero memory slot
  · intro copy hcopy offset address hmaps
    apply (foldl_covered (fun slot : Written β => slot.file offset)
      (fun batch => batch.fileOffset ≤ offset ∧ offset < batch.fileOffset + batch.bytes)
      (memory address) _ _ slot).1
    · obtain ⟨batch, hbatch, piece, hpiece, hmaps'⟩ := hparts.maps_iff.mpr ⟨copy, hcopy, hmaps⟩
      have hinside := (hgathers batch hbatch).fits.inside piece hpiece
      have hoffset := hmaps'.hasOffset
      exact ⟨batch, horder.mem_iff.mpr hbatch, hinside.1.trans hoffset.1,
        hoffset.2.trans_le hinside.2⟩
    · intro batch hbatch hcovers slot
      have hbatch := horder.mem_iff.mp hbatch
      apply written_of_covers (hgathers batch hbatch) hcovers hcopy hmaps
      intro piece hpiece address' hmaps'
      obtain ⟨other, hother, hmaps''⟩ := hparts.maps_iff.mp ⟨batch, hbatch, piece, hpiece, hmaps'⟩
      exact address_unique hapart hcopy hother hmaps hmaps''
    · intro batch _ hcovers slot
      exact Move.apply_of_not_covers hcovers

/-! ### Reads -/

def IoBatch.restored (file : Nat → β) (slot : Restored β) (batch : IoBatch) : Restored β :=
  let filled := Move.apply file slot.staging ⟨batch.fileOffset, 0, batch.bytes⟩
  { staging := filled
    memory := moveAll filled batch.scatter slot.memory }

theorem submitRead_eq (hvalid : batch.validate = .ok ()) (file : Nat → β)
    (slot : Restored β) : submitRead file slot batch = .ok (batch.restored file slot) := by
  unfold submitRead
  rw [hvalid]
  rfl

theorem restored_of_covers (hfits : batch.Fits)
    (hcovers : ∃ piece ∈ batch.copies, piece.HasAddress address)
    (hunique : ∀ piece ∈ batch.copies, ∀ offset', piece.Maps offset' address →
      offset' = offset) (file : Nat → β) (slot : Restored β) :
    (batch.restored file slot).memory address = file offset := by
  apply moveAll_of_agree
  · intro move hmove hmove_covers
    obtain ⟨piece, hpiece, rfl⟩ := List.mem_map.mp hmove
    have hinside := hfits.inside piece hpiece
    have haddress : piece.HasAddress address := hmove_covers
    have hoffset := hunique piece hpiece _ haddress.maps
    obtain ⟨hfrom, hto⟩ := haddress
    dsimp only
    rw [Move.apply_of_covers ⟨Nat.zero_le _, by dsimp only; omega⟩]
    congr 1
    dsimp only
    omega
  · obtain ⟨piece, hpiece, haddress⟩ := hcovers
    exact ⟨_, List.mem_map_of_mem hpiece, haddress⟩

theorem runReads_spec {order : List IoBatch} (hapart : copies.Pairwise CopyRange.DeviceApart)
    (hsound : ∀ batch ∈ batches, batch.Sound) (hparts : Partitioned copies batches)
    (horder : order.Perm batches) (file : Nat → β) (slot : Restored β) :
    ∃ slot', runReads file order slot = .ok slot' ∧
      ∀ copy ∈ copies, ∀ offset address, copy.Maps offset address →
        slot'.memory address = file offset := by
  refine ⟨order.foldl (IoBatch.restored file) slot, ?_, ?_⟩
  · apply foldlM_eq_foldl
    intro batch hbatch slot
    obtain ⟨hfilled, hpos⟩ := hsound batch (horder.mem_iff.mp hbatch)
    exact submitRead_eq (hfilled.validate hpos) file slot
  · intro copy hcopy offset address hmaps
    apply (foldl_covered (fun slot : Restored β => slot.memory address)
      (fun batch => ∃ piece ∈ batch.copies, piece.HasAddress address) (file offset) _ _ slot).1
    · obtain ⟨batch, hbatch, piece, hpiece, hmaps'⟩ := hparts.maps_iff.mpr ⟨copy, hcopy, hmaps⟩
      exact ⟨batch, horder.mem_iff.mpr hbatch, piece, hpiece, hmaps'.hasAddress⟩
    · intro batch hbatch hcovers slot
      have hbatch := horder.mem_iff.mp hbatch
      apply restored_of_covers (hsound batch hbatch).1.toFits hcovers
      intro piece hpiece offset' hmaps'
      obtain ⟨other, hother, hmaps''⟩ := hparts.maps_iff.mp ⟨batch, hbatch, piece, hpiece, hmaps'⟩
      exact offset_unique hapart hcopy hother hmaps hmaps''
    · intro batch _ hcovers slot
      apply moveAll_of_outside
      intro move hmove hmove_covers
      obtain ⟨piece, hpiece, rfl⟩ := List.mem_map.mp hmove
      exact hcovers ⟨piece, hpiece, hmove_covers⟩

/-! ### Plans -/

def WritesPlanned (copies : List CopyRange) (fileOffset bytes : Nat) : Prop :=
  (CopiesReserved fileOffset bytes copies ∧
    ∃ batches, planWrites fileOffset bytes copies = .ok batches ∧
      Tiles fileOffset (fileOffset + bytes) batches ∧ Partitioned copies batches) ∨
  (¬CopiesReserved fileOffset bytes copies ∧ ∃ e, planWrites fileOffset bytes copies = fail e)

variable (sorting : OffsetSort)

def ReadsPlanned (copies : List CopyRange) : Prop :=
  ((∀ copy ∈ copies, copy.device + copy.bytes < 2 ^ 64) ∧
    ∃ batches, planReads sorting copies = .ok batches ∧ Partitioned copies batches ∧
      ∀ batch ∈ batches, batch.validate = .ok () ∧
        ∀ page, alignment ∣ page → batch.fileOffset ≤ page →
          page < batch.fileOffset + batch.bytes → Requested copies page) ∨
  ((∃ copy ∈ copies, 2 ^ 64 ≤ copy.device + copy.bytes) ∧
    planReads sorting copies = fail "GPU destination overflow")

/-- Copies that are written and read back, to the same or other device ranges, by slots that take
the planned batches in any order: every byte of a copy arrives. -/
def RoundTrip (copies : List CopyRange) : Prop :=
  ∀ (fileOffset bytes : Nat) (reads : List CopyRange) (writing reading : List IoBatch),
    planWrites fileOffset bytes copies = .ok writing →
    copies.Pairwise CopyRange.FileApart →
    List.Forall₂ CopyRange.SameFile copies reads →
    (∀ copy ∈ reads, copy.device ≠ 0) →
    reads.Pairwise CopyRange.DeviceApart →
    planReads sorting reads = .ok reading →
    ∀ (β : Type) (zero : β) (memory memory' file staging staging' : Nat → β)
      (writes' reads' : List IoBatch), writes'.Perm writing → reads'.Perm reading →
      ∃ written restored,
        runWrites zero memory writes' ⟨staging, file⟩ = .ok written ∧
        runReads written.file reads' ⟨staging', memory'⟩ = .ok restored ∧
        List.Forall₂ (fun copy read => ∀ k < copy.bytes,
          restored.memory (read.device + k) = memory (copy.device + k)) copies reads

theorem writes_planned (haddress : ∀ copy ∈ copies, copy.device ≠ 0)
    (fileOffset bytes : Nat) : WritesPlanned copies fileOffset bytes := by
  by_cases hreserved : CopiesReserved fileOffset bytes copies
  · obtain ⟨batches, hplan, htiles, hparts, -⟩ := planWrites_spec haddress hreserved
    exact .inl ⟨hreserved, batches, hplan, htiles, hparts⟩
  · exact .inr ⟨hreserved, planWrites_refused hreserved⟩

theorem reads_planned {copies : List CopyRange} (haddress : ∀ copy ∈ copies, copy.device ≠ 0)
    (hbound : ∀ copy ∈ copies, copy.fileOffset + copy.bytes ≤ paddedBound) :
    ReadsPlanned sorting copies := by
  by_cases hdevice : ∀ copy ∈ copies, copy.device + copy.bytes < 2 ^ 64
  · obtain ⟨batches, hplan, hparts, hsound⟩ := planReads_spec sorting fun copy hcopy =>
      ⟨haddress copy hcopy, hdevice copy hcopy, hbound copy hcopy⟩
    refine .inl ⟨hdevice, batches, hplan, hparts, ?_⟩
    intro batch hbatch
    obtain ⟨hfilled, hpos⟩ := hsound batch hbatch
    refine ⟨hfilled.validate hpos, ?_⟩
    intro page hpage hstart hstop
    obtain ⟨piece, hpiece, offset, hfrom, hto, hoffset⟩ := hfilled.pages page hpage hstart hstop
    have hmaps : piece.Maps offset _ := CopyRange.HasOffset.maps hoffset
    obtain ⟨copy, hcopy, hmaps'⟩ := hparts.maps_iff.mp ⟨batch, hbatch, piece, hpiece, hmaps⟩
    exact ⟨copy, hcopy, offset, hfrom, hto, hmaps'.hasOffset⟩
  · push Not at hdevice
    exact .inr ⟨hdevice, planReads_overflow sorting haddress hbound hdevice⟩

theorem planWrites_inv {fileOffset bytes : Nat} (haddress : ∀ copy ∈ copies, copy.device ≠ 0)
    (hplan : planWrites fileOffset bytes copies = .ok batches) :
    Partitioned copies batches ∧ ∀ batch ∈ batches, batch.Gathers copies := by
  by_cases hreserved : CopiesReserved fileOffset bytes copies
  · obtain ⟨batches', hplan', -, hparts, hgathers⟩ := planWrites_spec haddress hreserved
    obtain rfl := Except.ok.inj (hplan.symm.trans hplan')
    exact ⟨hparts, hgathers⟩
  · obtain ⟨e, he⟩ := planWrites_refused hreserved
    cases hplan.symm.trans he

theorem planReads_inv {sorting : OffsetSort} (haddress : ∀ copy ∈ copies, copy.device ≠ 0)
    (hbound : ∀ copy ∈ copies, copy.fileOffset + copy.bytes ≤ paddedBound)
    (hplan : planReads sorting copies = .ok batches) :
    Partitioned copies batches ∧ ∀ batch ∈ batches, batch.Sound := by
  by_cases hdevice : ∀ copy ∈ copies, copy.device + copy.bytes < 2 ^ 64
  · obtain ⟨batches', hplan', hparts, hsound⟩ := planReads_spec sorting fun copy hcopy =>
      ⟨haddress copy hcopy, hdevice copy hcopy, hbound copy hcopy⟩
    obtain rfl := Except.ok.inj (hplan.symm.trans hplan')
    exact ⟨hparts, hsound⟩
  · push Not at hdevice
    cases hplan.symm.trans (planReads_overflow sorting haddress hbound hdevice)

theorem round_trip {copies : List CopyRange} (haddress : ∀ copy ∈ copies, copy.device ≠ 0)
    (hbound : ∀ copy ∈ copies, copy.fileOffset + copy.bytes ≤ paddedBound) :
    RoundTrip sorting copies := by
  intro fileOffset bytes reads writing reading hwrites hapart hsame hdevices hdevice_apart hreads
    β zero memory memory' file staging staging' writes' reads' hwriting hreading
  have hreads_bound : ∀ read ∈ reads, read.fileOffset + read.bytes ≤ paddedBound := by
    intro read hread
    obtain ⟨i, hi, rfl⟩ := List.getElem_of_mem hread
    have hlength := hsame.length_eq
    obtain ⟨hoffset, hbytes⟩ := (List.forall₂_iff_get.mp hsame).2 i (by omega) hi
    have hcopy := hbound copies[i] (List.getElem_mem _)
    simp only [List.get_eq_getElem] at hoffset hbytes
    rw [hoffset, hbytes]
    exact hcopy
  obtain ⟨hwrite_parts, hgathers⟩ := planWrites_inv haddress hwrites
  obtain ⟨hread_parts, hsound⟩ := planReads_inv hdevices hreads_bound hreads
  obtain ⟨written, hrun, hwritten⟩ :=
    runWrites_spec hapart hgathers hwrite_parts hwriting zero memory ⟨staging, file⟩
  obtain ⟨restored, hrun', hrestored⟩ :=
    runReads_spec hdevice_apart hsound hread_parts hreading written.file ⟨staging', memory'⟩
  refine ⟨written, restored, hrun, hrun', ?_⟩
  apply List.forall₂_iff_get.mpr
  refine ⟨hsame.length_eq, ?_⟩
  intro i hcopy hread k hk
  obtain ⟨hoffset, hbytes⟩ := (List.forall₂_iff_get.mp hsame).2 i hcopy hread
  have hmaps : (copies.get ⟨i, hcopy⟩).Maps _ _ := ⟨k, hk, rfl, rfl⟩
  have hmaps' : (reads.get ⟨i, hread⟩).Maps _ _ := ⟨k, hbytes ▸ hk, rfl, rfl⟩
  calc restored.memory ((reads.get ⟨i, hread⟩).device + k)
      = written.file ((reads.get ⟨i, hread⟩).fileOffset + k) :=
        hrestored _ (List.get_mem reads _) _ _ hmaps'
    _ = written.file ((copies.get ⟨i, hcopy⟩).fileOffset + k) := by rw [hoffset]
    _ = memory ((copies.get ⟨i, hcopy⟩).device + k) :=
        hwritten _ (List.get_mem copies _) _ _ hmaps

/-- **Batch planning.** For copies at device addresses other than zero whose padded ends are file
offsets: a plan of writes tiles its reservation and a plan of reads consists of valid batches
without an idle page; both partition the copies, and what was written is read back. -/
theorem cufile_plans (copies : List CopyRange) (haddress : ∀ copy ∈ copies, copy.device ≠ 0)
    (hends : ∀ copy ∈ copies, copy.fileOffset + copy.bytes ≤ 2 ^ 63 - 4096) :
    (∀ fileOffset bytes, WritesPlanned copies fileOffset bytes) ∧ ReadsPlanned sorting copies ∧
      RoundTrip sorting copies :=
  ⟨writes_planned haddress, reads_planned sorting haddress hends, round_trip sorting haddress hends⟩

def offsetMergeSort : OffsetSort where
  sort := fun copies => copies.mergeSort fun copy other => copy.fileOffset ≤ other.fileOffset
  perm := fun copies => List.mergeSort_perm copies _
  sorted := by
    intro copies
    have hsorted : (copies.mergeSort fun copy other => copy.fileOffset ≤ other.fileOffset).Pairwise
        fun copy other => decide (copy.fileOffset ≤ other.fileOffset) = true :=
      List.pairwise_mergeSort (by simp; omega) (by simp; omega) copies
    simpa using hsorted

/-- Two copies at unaligned offsets, out of order, one longer than the staging buffer. -/
def unalignedCopies : List CopyRange :=
  [⟨5000, 7, 5000000⟩, ⟨4100, 9000000, 900⟩]

/-- The same file ranges, for other device ranges. -/
def unalignedReads : List CopyRange :=
  [⟨5000, 20000000, 5000000⟩, ⟨4100, 1, 900⟩]

theorem cufile_plans_unaligned :
    ∃ writing reading, planWrites 4096 5001216 unalignedCopies = .ok writing ∧
      Tiles 4096 5005312 writing ∧ Partitioned unalignedCopies writing ∧
      planReads offsetMergeSort unalignedReads = .ok reading ∧
      Partitioned unalignedReads reading ∧ (∀ batch ∈ reading, batch.validate = .ok ()) ∧
      ∀ memory : Nat → UInt8, ∃ written restored,
        runWrites 0 memory writing.reverse ⟨fun _ => 0, fun _ => 0⟩ = .ok written ∧
        runReads written.file reading ⟨fun _ => 0, fun _ => 0⟩ = .ok restored ∧
        ∀ k < 5000000, restored.memory (20000000 + k) = memory (7 + k) := by
  obtain ⟨hwrites, -, hround⟩ :=
    cufile_plans offsetMergeSort unalignedCopies (by decide) (by decide)
  obtain ⟨-, hreads, -⟩ := cufile_plans offsetMergeSort unalignedReads (by decide) (by decide)
  obtain ⟨-, writing, hwriting, htiles, hparts⟩ := (hwrites 4096 5001216).resolve_right fun hrefused =>
    hrefused.1 ⟨by decide, by decide, by decide, by decide, by decide, by decide⟩
  obtain ⟨-, reading, hreading, hparts', hvalid⟩ :=
    hreads.resolve_right fun hover => absurd hover.1 (by decide)
  refine ⟨writing, reading, hwriting, htiles, hparts, hreading, hparts',
    fun batch hbatch => (hvalid batch hbatch).1, fun memory => ?_⟩
  have hfile : unalignedCopies.Pairwise CopyRange.FileApart := by
    simp [unalignedCopies, CopyRange.FileApart, CopyRange.HasOffset]
    omega
  have hdevice : unalignedReads.Pairwise CopyRange.DeviceApart := by
    simp [unalignedReads, CopyRange.DeviceApart, CopyRange.HasAddress]
    omega
  obtain ⟨written, restored, hwritten, hrestored, hbytes⟩ :=
    hround 4096 5001216 unalignedReads writing reading hwriting hfile
      (.cons ⟨rfl, rfl⟩ (.cons ⟨rfl, rfl⟩ .nil)) (by decide) hdevice hreading UInt8 0 memory
        (fun _ => 0) (fun _ => 0) (fun _ => 0) (fun _ => 0)
      writing.reverse reading writing.reverse_perm (.refl _)
  exact ⟨written, restored, hwritten, hrestored, (List.forall₂_cons.mp hbytes).1⟩

end OrbitKV
