import OrbitKV.Storage.Cufile

/-!
# What the batches of GPU storage cover

The pieces of a plan's batches are the pieces of its copies.
-/

namespace OrbitKV

open List

variable {offset bytes address : Nat} {cut : List CopyRange} {piece : CopyRange}

def paddedBound : Nat := 2 ^ 63 - 4096

def CopyRange.advance (copy : CopyRange) (bytes : Nat) : CopyRange where
  fileOffset := copy.fileOffset + bytes
  device := copy.device + bytes
  bytes := copy.bytes - bytes

def CutInto : CopyRange → List CopyRange → Prop
  | copy, [] => copy.bytes = 0
  | copy, piece :: rest =>
    0 < piece.bytes ∧ piece.bytes ≤ copy.bytes ∧ piece.fileOffset = copy.fileOffset ∧
      piece.device = copy.device ∧ CutInto (copy.advance piece.bytes) rest

def pieces (batches : List IoBatch) : List CopyRange :=
  batches.flatMap (·.copies)

def Partitioned (copies : List CopyRange) (batches : List IoBatch) : Prop :=
  ∃ cuts, List.Forall₂ CutInto copies cuts ∧ (pieces batches).Perm cuts.flatten

def Tiles : (start stop : Nat) → List IoBatch → Prop
  | start, stop, [] => start = stop
  | start, stop, batch :: batches =>
    batch.fileOffset = start ∧ 0 < batch.bytes ∧ Tiles (start + batch.bytes) stop batches

def CopyRange.Maps (copy : CopyRange) (offset address : Nat) : Prop :=
  ∃ k < copy.bytes, offset = copy.fileOffset + k ∧ address = copy.device + k

def Requested (copies : List CopyRange) (page : Nat) : Prop :=
  ∃ copy ∈ copies, ∃ offset, page ≤ offset ∧ offset < page + alignment ∧
    copy.fileOffset ≤ offset ∧ offset < copy.fileOffset + copy.bytes

/-! ### Pieces -/

theorem boundedAdd_of_lt {a b : Nat} (hlt : a + b < 2 ^ 64) : boundedAdd a b = some (a + b) :=
  if_pos hlt

theorem fileEnd_of_lt (hlt : offset + bytes < 2 ^ 63) :
    fileEnd offset bytes = some (offset + bytes) := by
  rw [fileEnd, boundedAdd_of_lt (by omega)]
  simp only [Option.filter_some, hlt, decide_true, if_true]

variable {copy : CopyRange} {batches : List IoBatch} {copies : List CopyRange} {batch : IoBatch}
  {start limit : Nat}

theorem CutInto.maps_iff (hcut : CutInto copy cut) :
    (∃ piece ∈ cut, piece.Maps offset address) ↔ copy.Maps offset address := by
  induction cut generalizing copy with
  | nil =>
    have hzero : copy.bytes = 0 := hcut
    simp [CopyRange.Maps, hzero]
  | cons piece rest ih =>
    obtain ⟨_, hle, hoffset, hdevice, hrest⟩ := hcut
    simp only [exists_mem_cons_iff, ih hrest]
    constructor
    · rintro (⟨k, hk, rfl, rfl⟩ | ⟨k, hk, rfl, rfl⟩)
      · exact ⟨k, hk.trans_le hle, by rw [hoffset], by rw [hdevice]⟩
      · change k < copy.bytes - piece.bytes at hk
        exact ⟨piece.bytes + k, by omega, Nat.add_assoc _ _ _, Nat.add_assoc _ _ _⟩
    · rintro ⟨k, hk, rfl, rfl⟩
      by_cases hfirst : k < piece.bytes
      · exact .inl ⟨k, hfirst, by rw [hoffset], by rw [hdevice]⟩
      · refine .inr ⟨k - piece.bytes, ?_, ?_, ?_⟩ <;> simp only [CopyRange.advance] <;> omega

theorem Partitioned.maps_iff (hparts : Partitioned copies batches) :
    (∃ batch ∈ batches, ∃ piece ∈ batch.copies, piece.Maps offset address) ↔
      ∃ copy ∈ copies, copy.Maps offset address := by
  obtain ⟨cuts, hcuts, hperm⟩ := hparts
  have hpieces : (∃ batch ∈ batches, ∃ piece ∈ batch.copies, piece.Maps offset address) ↔
      ∃ piece ∈ cuts.flatten, piece.Maps offset address := by
    simp only [← hperm.mem_iff, pieces, mem_flatMap]
    grind
  rw [hpieces]
  clear hpieces hperm
  induction hcuts with
  | nil => simp
  | cons hcut _ ih =>
    simp only [flatten_cons, mem_append, or_and_right, exists_or, hcut.maps_iff, ih,
      exists_mem_cons_iff]

/-- What every batch is after every round: aligned, within the staging buffer and the file, its
copies within it. -/
structure IoBatch.Fits (batch : IoBatch) : Prop where
  offset : alignment ∣ batch.fileOffset
  bytes : alignment ∣ batch.bytes
  staging : batch.bytes ≤ stagingBytes
  bound : batch.fileOffset + batch.bytes ≤ paddedBound
  device : ∀ copy ∈ batch.copies, copy.device ≠ 0 ∧ copy.device + copy.bytes < 2 ^ 64
  inside : ∀ copy ∈ batch.copies, batch.fileOffset ≤ copy.fileOffset ∧
    copy.fileOffset + copy.bytes ≤ batch.fileOffset + batch.bytes

structure CopyRange.Plannable (copy : CopyRange) : Prop where
  address : copy.device ≠ 0
  device : copy.device + copy.bytes < 2 ^ 64
  bound : copy.fileOffset + copy.bytes ≤ paddedBound

theorem CopyRange.Plannable.advance (hcopy : copy.Plannable)
    (hle : bytes ≤ copy.bytes) : (copy.advance bytes).Plannable where
  address := fun hzero => hcopy.address (Nat.add_eq_zero_iff.mp hzero).1
  device := by
    have hdevice := hcopy.device
    simp only [CopyRange.advance]
    omega
  bound := by
    have hbound := hcopy.bound
    simp only [CopyRange.advance]
    omega

theorem IoBatch.Fits.validate (hfits : batch.Fits)
    (hpos : 0 < batch.bytes) : batch.validate = .ok () := by
  have hbound := hfits.bound
  unfold paddedBound at hbound
  have hwhole : (batch.bytes = 0 || decide (stagingBytes < batch.bytes) ||
      batch.bytes % alignment ≠ 0 || batch.fileOffset % alignment ≠ 0) = false := by
    have hstaging := hfits.staging
    have hbytes := Nat.mod_eq_zero_of_dvd hfits.bytes
    have hoffset := Nat.mod_eq_zero_of_dvd hfits.offset
    simp [hbytes, hoffset]
    omega
  have hcopies : batch.copies.any (batch.exceeds (batch.fileOffset + batch.bytes)) = false := by
    rw [any_eq_false]
    intro copy hcopy
    obtain ⟨haddress, hdevice⟩ := hfits.device copy hcopy
    obtain ⟨hstart, hstop⟩ := hfits.inside copy hcopy
    rw [IoBatch.exceeds, boundedAdd_of_lt hdevice, boundedAdd_of_lt (by omega)]
    simp [haddress]
    omega
  rw [IoBatch.validate, fileEnd_of_lt (by omega)]
  simp only [hwhole, hcopies, Bool.false_eq_true, if_false]

/-! ### Reads -/

structure IoBatch.Filled (batch : IoBatch) : Prop extends batch.Fits where
  pages : ∀ page, alignment ∣ page → batch.fileOffset ≤ page →
    page < batch.fileOffset + batch.bytes → Requested batch.copies page

theorem nextMultiple {value : Nat} (hle : value ≤ stagingBytes) :
    ∃ padded, checkedNextMultipleOf value alignment = some padded ∧ alignment ∣ padded ∧
      value ≤ padded ∧ padded < value + alignment ∧ padded ≤ stagingBytes := by
  unfold stagingBytes at *
  obtain ⟨padded, hpadded, hdvd, hle', hlt⟩ :=
    exists_nextMultiple value alignment (by decide) (by unfold alignment u64Bound; omega)
  unfold alignment at *
  exact ⟨padded, hpadded, hdvd, hle', hlt, by omega⟩

theorem IoBatch.Filled.requested_append (hfilled : batch.Filled) (hpos : 0 < piece.bytes)
    (htouch : piece.fileOffset / alignment * alignment ≤ batch.fileOffset + batch.bytes)
    {page : Nat} (hpage : alignment ∣ page) (hstart : batch.fileOffset ≤ page)
    (hstop : page < batch.fileOffset + batch.bytes ∨ page < piece.fileOffset + piece.bytes) :
    Requested (batch.copies ++ [piece]) page := by
  by_cases hold : page < batch.fileOffset + batch.bytes
  · obtain ⟨copy, hcopy, hoffset⟩ := hfilled.pages page hpage hstart hold
    exact ⟨copy, mem_append_left _ hcopy, hoffset⟩
  · have hnew := hstop.resolve_left hold
    have hoffset := hfilled.offset
    have hbytes := hfilled.bytes
    unfold alignment at *
    -- the page is behind the batch, so not before the first page of the piece
    refine ⟨piece, by simp, max page piece.fileOffset, ?_⟩
    unfold alignment
    omega

theorem IoBatch.Filled.push (hfilled : batch.Filled) {copy : CopyRange}
    (hcopy : copy.Plannable) (hpos : 0 < copy.bytes) (hstart : batch.fileOffset ≤ copy.fileOffset)
    (hroom : copy.fileOffset < batch.fileOffset + stagingBytes)
    (htouch : copy.fileOffset / alignment * alignment ≤ batch.fileOffset + batch.bytes) :
    ∃ batch' bytes, batch.push copy = .ok (batch', copy.advance bytes) ∧ batch'.Filled ∧
      0 < batch'.bytes ∧ 0 < bytes ∧ bytes ≤ copy.bytes ∧
      batch'.copies = batch.copies ++ [{ copy with bytes := bytes }] := by
  have hbound := hcopy.bound
  have hdevice := hcopy.device
  unfold paddedBound at hbound
  generalize hoffset : copy.fileOffset - batch.fileOffset = offset
  generalize hbytes : min copy.bytes (stagingBytes - offset) = bytes
  have hbytes_pos : 0 < bytes := by omega
  have hbytes_le : bytes ≤ copy.bytes := by omega
  have hfits : offset + bytes ≤ stagingBytes := by omega
  obtain ⟨padded, hpadded, hdvd, hreach, hclose, hstaging⟩ := nextMultiple hfits
  let piece : CopyRange := { copy with bytes := bytes }
  refine ⟨⟨batch.fileOffset, max batch.bytes padded, batch.copies ++ [piece]⟩, bytes, ?_, ?_, ?_,
    hbytes_pos, hbytes_le, rfl⟩
  · have hstagingBound : stagingBytes < 2 ^ 63 := by decide
    unfold IoBatch.push
    rw [subOrPanic_of_le hstart, hoffset]
    change (subOrPanic stagingBytes offset >>= fun room => _) = _
    rw [subOrPanic_of_le (by omega)]
    change (addOrPanic offset (min copy.bytes (stagingBytes - offset)) >>= fun reach => _) = _
    rw [hbytes, addOrPanic_of_lt (by omega)]
    change (orPanic (checkedNextMultipleOf (offset + bytes) alignment) >>= fun padded => _) = _
    rw [hpadded, addOrPanic_of_lt (by omega), addOrPanic_of_lt (by omega),
      subOrPanic_of_le hbytes_le]
    rfl
  · have hbatch := hfilled.bound
    have hoffset_dvd := hfilled.offset
    unfold paddedBound at hbatch
    refine ⟨⟨hfilled.offset, ?_, ?_, ?_, ?_, ?_⟩, ?_⟩
    · change alignment ∣ max batch.bytes padded
      rcases max_choice batch.bytes padded with hmax | hmax <;> rw [hmax]
      · exact hfilled.bytes
      · exact hdvd
    · exact max_le hfilled.staging hstaging
    · change batch.fileOffset + max batch.bytes padded ≤ paddedBound
      unfold paddedBound alignment at *
      omega
    · intro other hother
      rcases List.mem_append.mp hother with hother | hother
      · exact hfilled.device other hother
      · obtain rfl := List.mem_singleton.mp hother
        exact ⟨hcopy.address, by change copy.device + bytes < 2 ^ 64; omega⟩
    · intro other hother
      change batch.fileOffset ≤ other.fileOffset ∧
        other.fileOffset + other.bytes ≤ batch.fileOffset + max batch.bytes padded
      rcases List.mem_append.mp hother with hother | hother
      · have hinside := hfilled.inside other hother
        omega
      · obtain rfl := List.mem_singleton.mp hother
        change batch.fileOffset ≤ copy.fileOffset ∧ copy.fileOffset + bytes ≤ _
        omega
    · intro page hpage hfrom hto
      change page < batch.fileOffset + max batch.bytes padded at hto
      apply hfilled.requested_append (show 0 < piece.bytes from hbytes_pos) htouch hpage hfrom
      change _ ∨ page < copy.fileOffset + bytes
      by_contra hnone
      unfold alignment at *
      omega
  · change 0 < max batch.bytes padded
    omega

def IoBatch.Sound (batch : IoBatch) : Prop :=
  batch.Filled ∧ 0 < batch.bytes

theorem filled_inserted (hoffset : alignment ∣ offset) (hbound : offset ≤ paddedBound) :
    IoBatch.Filled { fileOffset := offset, bytes := 0, copies := [] } where
  offset := hoffset
  bytes := Nat.dvd_zero _
  staging := Nat.zero_le _
  bound := hbound
  device := fun _ hcopy => absurd hcopy not_mem_nil
  inside := fun _ hcopy => absurd hcopy not_mem_nil
  pages := fun _ _ hstart hstop => absurd (Nat.lt_of_le_of_lt hstart hstop) (Nat.lt_irrefl _)

theorem append_spec (hfilled : batch.Filled) (copy : CopyRange) (aligned : Nat) :
    batch.append copy aligned = .ok (decide (batch.fileOffset ≤ copy.fileOffset ∧
      aligned ≤ batch.fileOffset + batch.bytes ∧
      copy.fileOffset < batch.fileOffset + stagingBytes)) := by
  have hbound := hfilled.bound
  have hstaging : stagingBytes < 2 ^ 63 := by decide
  unfold paddedBound at hbound
  unfold IoBatch.append
  split
  case isTrue hbefore => simp [Nat.not_le.mpr hbefore]
  case isFalse hbefore =>
    rw [addOrPanic_of_lt (by omega), addOrPanic_of_lt (by omega)]
    by_cases hgap : batch.fileOffset + batch.bytes < aligned
    · simp [bind, Except.bind, pure, Except.pure, hgap]
    · simp [bind, Except.bind, pure, Except.pure, hgap, Nat.not_lt.mp hgap, Nat.not_lt.mp hbefore]

theorem lastBatch_spec (hbatches : ∀ batch ∈ batches, batch.Sound)
    {copy : CopyRange} (hcopy : copy.Plannable) :
    ∃ batch older, lastBatch batches copy = .ok (batch, older) ∧ batch.Filled ∧
      (∀ batch ∈ older, batch.Sound) ∧ pieces (batch :: older) = pieces batches ∧
      batch.fileOffset ≤ copy.fileOffset ∧
      copy.fileOffset < batch.fileOffset + stagingBytes ∧
      copy.fileOffset / alignment * alignment ≤ batch.fileOffset + batch.bytes := by
  have hbound := hcopy.bound
  have hfilled := filled_inserted (Nat.dvd_mul_left alignment (copy.fileOffset / alignment))
    (by unfold alignment paddedBound at *; omega)
  have hnear : copy.fileOffset / alignment * alignment ≤ copy.fileOffset ∧
      copy.fileOffset < copy.fileOffset / alignment * alignment + stagingBytes := by
    unfold alignment stagingBytes
    omega
  cases batches with
  | nil => exact ⟨_, [], rfl, hfilled, hbatches, rfl, hnear.1, hnear.2,
          Nat.le_add_right _ 0⟩
  | cons batch older =>
    have hbatch := hbatches batch mem_cons_self
    simp only [lastBatch, append_spec hbatch.1]
    by_cases happend : batch.fileOffset ≤ copy.fileOffset ∧
        copy.fileOffset / alignment * alignment ≤ batch.fileOffset + batch.bytes ∧
        copy.fileOffset < batch.fileOffset + stagingBytes
    · rw [decide_eq_true happend]
      exact ⟨batch, older, rfl, hbatch.1, fun b hb => hbatches b (mem_cons_of_mem _ hb), rfl,
        happend.1, happend.2.2, happend.2.1⟩
    · rw [decide_eq_false happend]
      exact ⟨_, batch :: older, rfl, hfilled, hbatches, rfl, hnear.1, hnear.2, Nat.le_add_right _ 0⟩

theorem planCopy_spec {fuel : Nat} (hbatches : ∀ batch ∈ batches, batch.Sound)
    (hcopy : copy.Plannable) (hfuel : copy.bytes ≤ fuel) :
    ∃ batches' cut, planCopy fuel batches copy = .ok batches' ∧
      (∀ batch ∈ batches', batch.Sound) ∧ CutInto copy cut ∧
      (pieces batches').Perm (pieces batches ++ cut) := by
  induction fuel generalizing batches copy with
  | zero =>
    exact ⟨batches, [], rfl, hbatches, Nat.le_zero.mp hfuel, by rw [append_nil]⟩
  | succ fuel ih =>
    rw [planCopy]
    by_cases hdone : copy.bytes = 0
    · rw [if_pos hdone]
      exact ⟨batches, [], rfl, hbatches, hdone, by rw [append_nil]⟩
    · rw [if_neg hdone]
      obtain ⟨batch, older, hlast, hfilled, holder, hpieces, hstart, hroom, htouch⟩ :=
        lastBatch_spec hbatches hcopy
      obtain ⟨batch', bytes, hpush, hfilled', hpos, hbytes, hle, hcopies⟩ :=
        hfilled.push hcopy (Nat.pos_of_ne_zero hdone) hstart hroom htouch
      have hsound : ∀ batch ∈ batch' :: older, batch.Sound := by
        intro other hother
        rcases List.mem_cons.mp hother with rfl | hother
        · exact ⟨hfilled', hpos⟩
        · exact holder other hother
      have hrest : (copy.advance bytes).bytes ≤ fuel := by
        change copy.bytes - bytes ≤ fuel
        omega
      obtain ⟨batches', cut, hplan, hsound', hcut, hperm⟩ := ih hsound (hcopy.advance hle) hrest
      let piece : CopyRange := { copy with bytes := bytes }
      refine ⟨batches', piece :: cut, ?_, hsound', ⟨hbytes, hle, rfl, rfl, hcut⟩, ?_⟩
      · rw [hlast]
        change (batch.push copy >>= fun result => _) = _
        rw [hpush]
        exact hplan
      · -- the piece went to the newest batch, in front of those before it
        have hfront : (pieces (batch' :: older)).Perm (pieces batches ++ [piece]) := by
          rw [← hpieces]
          simp only [pieces, flatMap_cons, hcopies, append_assoc]
          exact (perm_append_comm).append_left _
        rw [append_cons]
        exact hperm.trans (hfront.append_right cut)

theorem planRead_spec (hbatches : ∀ batch ∈ batches, batch.Sound) (hcopy : copy.Plannable) :
    ∃ batches' cut, planRead batches copy = .ok batches' ∧
      (∀ batch ∈ batches', batch.Sound) ∧ CutInto copy cut ∧
      (pieces batches').Perm (pieces batches ++ cut) := by
  have hbound := hcopy.bound
  unfold paddedBound at hbound
  unfold planRead
  rw [fileEnd_of_lt (by omega), boundedAdd_of_lt hcopy.device]
  exact planCopy_spec hbatches hcopy (Nat.le_refl _)

theorem planRead_foldlM_spec (hcopies : ∀ copy ∈ copies, copy.Plannable)
    (batches : List IoBatch) (hbatches : ∀ batch ∈ batches, batch.Sound) :
    ∃ batches' cuts, copies.foldlM planRead batches = .ok batches' ∧
      (∀ batch ∈ batches', batch.Sound) ∧ List.Forall₂ CutInto copies cuts ∧
      (pieces batches').Perm (pieces batches ++ cuts.flatten) := by
  induction copies generalizing batches with
  | nil => exact ⟨batches, [], rfl, hbatches, .nil, by simp⟩
  | cons copy copies ih =>
    obtain ⟨middle, cut, hplan, hmiddle, hcut, hperm⟩ :=
      planRead_spec hbatches (hcopies copy mem_cons_self)
    obtain ⟨batches', cuts, hfold, hsound, hcuts, hperm'⟩ :=
      ih (fun c hc => hcopies c (mem_cons_of_mem _ hc)) middle hmiddle
    refine ⟨batches', cut :: cuts, ?_, hsound, .cons hcut hcuts, ?_⟩
    · rw [foldlM_cons, hplan]
      exact hfold
    · rw [flatten_cons, ← append_assoc]
      exact hperm'.trans (hperm.append_right _)

theorem perm_pieces {batches batches' : List IoBatch} (hperm : batches.Perm batches') :
    (pieces batches).Perm (pieces batches') :=
  hperm.flatMap_right _

theorem Partitioned.of_perm {copies copies' : List CopyRange} {batches batches' : List IoBatch}
    (hparts : Partitioned copies batches) (hcopies : copies'.Perm copies)
    (hbatches : batches'.Perm batches) : Partitioned copies' batches' := by
  obtain ⟨cuts, hcuts, hperm⟩ := hparts
  obtain ⟨cuts', hcuts', hsame⟩ := perm_comp_forall₂ hcopies hcuts
  exact ⟨cuts', hcuts', (perm_pieces hbatches).trans (hperm.trans hsame.symm.flatten)⟩

theorem planReads_spec (sorting : OffsetSort) {copies : List CopyRange}
    (hcopies : ∀ copy ∈ copies, copy.Plannable) :
    ∃ batches, planReads sorting copies = .ok batches ∧ Partitioned copies batches ∧
      ∀ batch ∈ batches, batch.Sound := by
  have hperm := sorting.perm copies
  obtain ⟨batches, cuts, hfold, hsound, hcuts, hpieces⟩ :=
    planRead_foldlM_spec (fun copy hcopy => hcopies copy (hperm.mem_iff.mp hcopy)) [] (by simp)
  refine ⟨batches.reverse, ?_, ?_, ?_⟩
  · unfold planReads
    rw [hfold]
    rfl
  · exact Partitioned.of_perm ⟨cuts, hcuts, hpieces⟩ hperm.symm (reverse_perm batches)
  · intro batch hbatch
    exact hsound batch (List.mem_reverse.mp hbatch)

theorem planReads_overflow (sorting : OffsetSort) {copies : List CopyRange}
    (haddress : ∀ copy ∈ copies, copy.device ≠ 0)
    (hbound : ∀ copy ∈ copies, copy.fileOffset + copy.bytes ≤ paddedBound)
    (hover : ∃ copy ∈ copies, 2 ^ 64 ≤ copy.device + copy.bytes) :
    planReads sorting copies = fail "GPU destination overflow" := by
  have hperm := sorting.perm copies
  simp only [← hperm.mem_iff] at haddress hbound hover
  have hfold : ∀ batches : List IoBatch, (∀ batch ∈ batches, batch.Sound) →
      (sorting.sort copies).foldlM planRead batches = fail "GPU destination overflow" := by
    generalize sorting.sort copies = sorted at haddress hbound hover
    clear hperm
    induction sorted with
    | nil => simp at hover
    | cons copy sorted ih =>
      intro batches hbatches
      have hend := hbound copy mem_cons_self
      rw [foldlM_cons]
      by_cases hfits : copy.device + copy.bytes < 2 ^ 64
      · obtain ⟨middle, cut, hplan, hmiddle, -⟩ :=
          planRead_spec hbatches ⟨haddress copy mem_cons_self, hfits, hend⟩
        rw [hplan]
        apply ih (fun c hc => haddress c (mem_cons_of_mem _ hc))
          (fun c hc => hbound c (mem_cons_of_mem _ hc)) _ middle hmiddle
        obtain ⟨c, hc, hlarge⟩ := hover
        rcases List.mem_cons.mp hc with rfl | hc
        · omega
        · exact ⟨c, hc, hlarge⟩
      · unfold paddedBound at hend
        rw [planRead, fileEnd_of_lt (by omega), boundedAdd, u64Bound, if_neg hfits]
        rfl
  unfold planReads
  rw [hfold [] (by simp)]
  rfl

/-! ### Writes -/

structure CopiesReserved (fileOffset bytes : Nat) (copies : List CopyRange) : Prop where
  start : alignment ∣ fileOffset
  length : alignment ∣ bytes
  pos : 0 < bytes
  bound : fileOffset + bytes < 2 ^ 63
  inside : ∀ copy ∈ copies, fileOffset ≤ copy.fileOffset ∧
    copy.fileOffset + copy.bytes ≤ fileOffset + bytes
  device : ∀ copy ∈ copies, copy.device + copy.bytes < 2 ^ 64

def CopyRange.clip (copy : CopyRange) (start limit : Nat) : Option CopyRange :=
  let begin := max copy.fileOffset start
  let finish := min (copy.fileOffset + copy.bytes) limit
  if begin < finish then
    some {
      fileOffset := begin
      device := copy.device + (begin - copy.fileOffset)
      bytes := finish - begin }
  else
    none

def CopyRange.behind (copy : CopyRange) (start : Nat) : CopyRange :=
  copy.advance (start - copy.fileOffset)

theorem piece_eq_clip (hcopy : copy.Plannable) (start limit : Nat) :
    copy.piece start limit = .ok (copy.clip start limit) := by
  have hbound := hcopy.bound
  have hdevice := hcopy.device
  unfold paddedBound at hbound
  unfold CopyRange.piece CopyRange.clip
  rw [addOrPanic_of_lt (by omega)]
  change (if max copy.fileOffset start < min (copy.fileOffset + copy.bytes) limit then _ else _) = _
  by_cases hsome : max copy.fileOffset start < min (copy.fileOffset + copy.bytes) limit
  · rw [if_pos hsome, subOrPanic_of_le (Nat.le_max_left _ _)]
    change (addOrPanic copy.device _ >>= fun device => _) = _
    rw [addOrPanic_of_lt (by omega)]
    simp only [if_pos hsome]
    rfl
  · rw [if_neg hsome]
    simp only [if_neg hsome]
    rfl

theorem CutInto.eq_nil (hcut : CutInto copy cut) (hzero : copy.bytes = 0) : cut = [] := by
  cases cut with
  | nil => rfl
  | cons piece rest =>
    obtain ⟨hpos, hle, -⟩ := hcut
    omega

theorem CutInto.clip (hlt : start < limit) (hcut : CutInto (copy.behind limit) cut) :
    CutInto (copy.behind start) ((copy.clip start limit).toList ++ cut) := by
  by_cases hsome : max copy.fileOffset start < min (copy.fileOffset + copy.bytes) limit
  · simp only [CopyRange.clip, if_pos hsome, Option.toList_some, singleton_append]
    refine ⟨by dsimp only; omega, ?_, ?_, ?_, ?_⟩
    · simp only [CopyRange.behind, CopyRange.advance]
      omega
    · simp only [CopyRange.behind, CopyRange.advance]
      omega
    · simp only [CopyRange.behind, CopyRange.advance]
      omega
    · by_cases hends : copy.fileOffset + copy.bytes ≤ limit
      · -- the copy ends in the chunk, and nothing is left of it
        rw [hcut.eq_nil (by simp only [CopyRange.behind, CopyRange.advance]; omega)]
        simp only [CutInto, CopyRange.behind, CopyRange.advance]
        omega
      · convert hcut using 1
        simp only [CopyRange.behind, CopyRange.advance, CopyRange.mk.injEq]
        omega
  · simp only [CopyRange.clip, if_neg hsome, Option.toList_none, nil_append]
    by_cases hahead : limit ≤ copy.fileOffset
    · have hsame : copy.behind start = copy.behind limit := by
        simp only [CopyRange.behind, CopyRange.advance, CopyRange.mk.injEq]
        omega
      rw [hsame]
      exact hcut
    · rw [hcut.eq_nil (by simp only [CopyRange.behind, CopyRange.advance]; omega)]
      simp only [CutInto, CopyRange.behind, CopyRange.advance]
      omega

theorem clip_eq_some {copy : CopyRange} (hclip : copy.clip start limit = some piece) :
    piece.fileOffset = max copy.fileOffset start ∧
      piece.device = copy.device + (piece.fileOffset - copy.fileOffset) ∧
      piece.fileOffset + piece.bytes = min (copy.fileOffset + copy.bytes) limit ∧
      0 < piece.bytes := by
  simp only [CopyRange.clip] at hclip
  split at hclip
  case isTrue hsome =>
    cases hclip
    dsimp only
    omega
  case isFalse => cases hclip

theorem CopyRange.Maps.clip {start limit : Nat}
    (hmaps : copy.Maps offset address) (hstart : start ≤ offset) (hlimit : offset < limit) :
    ∃ piece, copy.clip start limit = some piece ∧ piece.Maps offset address := by
  obtain ⟨k, hk, rfl, rfl⟩ := hmaps
  have hsome : max copy.fileOffset start < min (copy.fileOffset + copy.bytes) limit := by omega
  refine ⟨_, if_pos hsome, copy.fileOffset + k - max copy.fileOffset start, ?_, ?_, ?_⟩ <;>
    dsimp only <;> omega

def clips (copies : List CopyRange) (start limit : Nat) : List CopyRange :=
  copies.filterMap fun copy => copy.clip start limit

theorem mem_clips :
    piece ∈ clips copies start limit ↔ ∃ copy ∈ copies, copy.clip start limit = some piece := by
  simp [clips]

theorem cutInto_clips {cuts : List (List CopyRange)} (hlt : start < limit)
    (hcuts : List.Forall₂ (fun copy => CutInto (copy.behind limit)) copies cuts) :
    ∃ cuts', List.Forall₂ (fun copy => CutInto (copy.behind start)) copies cuts' ∧
      (clips copies start limit ++ cuts.flatten).Perm cuts'.flatten := by
  induction hcuts with
  | nil => exact ⟨[], .nil, by simp [clips]⟩
  | @cons copy cut copies cuts hcut _ ih =>
    obtain ⟨cuts', hcuts', hperm⟩ := ih
    refine ⟨((copy.clip start limit).toList ++ cut) :: cuts', .cons (hcut.clip hlt) hcuts', ?_⟩
    have hfirst : clips (copy :: copies) start limit =
        (copy.clip start limit).toList ++ clips copies start limit := by
      cases hclip : copy.clip start limit <;> simp [clips, hclip]
    rw [hfirst, flatten_cons, flatten_cons, append_assoc, append_assoc]
    apply List.Perm.append_left
    -- the first copy's later pieces move in front of the other copies' pieces of this chunk
    exact (perm_append_comm_assoc _ _ _).trans (hperm.append_left cut)

structure IoBatch.Gathers (batch : IoBatch) (copies : List CopyRange) : Prop where
  fits : batch.Fits
  pos : 0 < batch.bytes
  maps : ∀ copy ∈ copies, ∀ offset address, copy.Maps offset address →
    batch.fileOffset ≤ offset → offset < batch.fileOffset + batch.bytes →
      ∃ piece ∈ batch.copies, piece.Maps offset address

theorem gathers_chunk (hcopies : ∀ copy ∈ copies, copy.Plannable)
    {start limit : Nat} (hstart : alignment ∣ start) (hlimit : alignment ∣ limit)
    (hlt : start < limit) (hstaging : limit ≤ start + stagingBytes) (hbound : limit ≤ paddedBound) :
    IoBatch.Gathers ⟨start, limit - start, clips copies start limit⟩ copies := by
  have hsum : start + (limit - start) = limit := by omega
  refine ⟨⟨hstart, Nat.dvd_sub hlimit hstart, ?_, ?_, ?_, ?_⟩, ?_, ?_⟩
  · change limit - start ≤ stagingBytes
    omega
  · exact hsum.trans_le hbound
  · intro piece hpiece
    obtain ⟨copy, hcopy, hclip⟩ := mem_clips.mp hpiece
    obtain ⟨hoffset, hdevice, hend, -⟩ := clip_eq_some hclip
    have hplan := hcopies copy hcopy
    have haddress := hplan.address
    have hspan := hplan.device
    omega
  · intro piece hpiece
    obtain ⟨copy, _, hclip⟩ := mem_clips.mp hpiece
    obtain ⟨hoffset, -, hend, -⟩ := clip_eq_some hclip
    dsimp only
    omega
  · change 0 < limit - start
    omega
  · intro copy hcopy offset address hmaps hfrom hto
    change offset < start + (limit - start) at hto
    rw [hsum] at hto
    obtain ⟨piece, hclip, hmaps'⟩ := hmaps.clip hfrom hto
    exact ⟨piece, mem_clips.mpr ⟨copy, hcopy, hclip⟩, hmaps'⟩

theorem planChunks_spec (hcopies : ∀ copy ∈ copies, copy.Plannable) {stop : Nat}
    (hstop : alignment ∣ stop) (hbound : stop ≤ paddedBound)
    (hends : ∀ copy ∈ copies, copy.fileOffset + copy.bytes ≤ stop) (fuel : Nat) {start : Nat}
    (hstart : alignment ∣ start) (hle : start ≤ stop) (hfuel : stop - start ≤ fuel) :
    ∃ batches cuts, planChunks copies stop fuel start = .ok batches ∧ Tiles start stop batches ∧
      (∀ batch ∈ batches, batch.Gathers copies) ∧
      List.Forall₂ (fun copy => CutInto (copy.behind start)) copies cuts ∧
      (pieces batches).Perm cuts.flatten := by
  have hdone : ∀ start, start = stop → ∃ cuts,
      List.Forall₂ (fun copy => CutInto (copy.behind start)) copies cuts ∧ cuts.flatten = [] := by
    rintro start rfl
    refine ⟨copies.map fun _ => [], ?_, by simp⟩
    rw [forall₂_map_right_iff]
    apply List.forall₂_same.mpr
    intro copy hcopy
    have hend := hends copy hcopy
    simp only [CutInto, CopyRange.behind, CopyRange.advance]
    omega
  induction fuel generalizing start with
  | zero =>
    have heq : start = stop := by omega
    obtain ⟨cuts, hcuts, hnil⟩ := hdone start heq
    exact ⟨[], cuts, rfl, heq, by simp, hcuts, by rw [hnil]; rfl⟩
  | succ fuel ih =>
    rw [planChunks]
    by_cases heq : stop ≤ start
    · obtain ⟨cuts, hcuts, hnil⟩ := hdone start (by omega)
      rw [if_pos heq]
      exact ⟨[], cuts, rfl, (by omega : start = stop), by simp, hcuts, by rw [hnil]; rfl⟩
    · rw [if_neg heq]
      generalize hlimit : min stop (start + stagingBytes) = limit
      have hlimit_dvd : alignment ∣ limit := by
        unfold alignment stagingBytes at *
        omega
      have hlt : start < limit := by
        unfold stagingBytes at hlimit
        omega
      have hgathers := gathers_chunk hcopies hstart hlimit_dvd hlt (by omega) (by omega)
      obtain ⟨batches, cuts, hplan, htiles, hsound, hcuts, hperm⟩ :=
        ih hlimit_dvd (by omega) (by omega)
      obtain ⟨cuts', hcuts', hperm'⟩ := cutInto_clips hlt hcuts
      have hpieces : copies.mapM (fun copy => copy.piece start limit) =
          .ok (copies.map fun copy => copy.clip start limit) :=
        mapM_of_forall fun copy hcopy => piece_eq_clip (hcopies copy hcopy) start limit
      refine ⟨⟨start, limit - start, clips copies start limit⟩ :: batches, cuts', ?_, ?_, ?_,
        hcuts', ?_⟩
      · have hstaging : stagingBytes < 2 ^ 63 := by decide
        unfold paddedBound at hbound
        rw [addOrPanic_of_lt (by omega)]
        change (copies.mapM (fun copy => copy.piece start (min stop (start + stagingBytes))) >>=
          fun pieces => _) = _
        rw [hlimit, hpieces]
        change (planChunks copies stop fuel limit >>= fun batches => _) = _
        rw [hplan]
        simp only [bind, Except.bind, pure, Except.pure, filterMap_map, clips]
        rfl
      · refine ⟨rfl, hgathers.pos, ?_⟩
        have hsum : start + (limit - start) = limit := by omega
        rw [hsum]
        exact htiles
      · intro batch hbatch
        rcases List.mem_cons.mp hbatch with rfl | hbatch
        · exact hgathers
        · exact hsound batch hbatch
      · exact (hperm.append_left _).trans hperm'

theorem planWrites_spec {fileOffset : Nat} (haddress : ∀ copy ∈ copies, copy.device ≠ 0)
    (hreserved : CopiesReserved fileOffset bytes copies) :
    ∃ batches, planWrites fileOffset bytes copies = .ok batches ∧
      Tiles fileOffset (fileOffset + bytes) batches ∧ Partitioned copies batches ∧
      ∀ batch ∈ batches, batch.Gathers copies := by
  obtain ⟨hoffset, hbytes, hpos, hbound, hinside, hdevice⟩ := hreserved
  have hstop : alignment ∣ fileOffset + bytes := Nat.dvd_add hoffset hbytes
  have hpadded : fileOffset + bytes ≤ paddedBound := by
    unfold paddedBound alignment at *
    omega
  have hcopies : ∀ copy ∈ copies, copy.Plannable := fun copy hcopy =>
    ⟨haddress copy hcopy, hdevice copy hcopy, (hinside copy hcopy).2.trans hpadded⟩
  obtain ⟨batches, cuts, hplan, htiles, hgathers, hcuts, hperm⟩ :=
    planChunks_spec hcopies hstop hpadded (fun copy hcopy => (hinside copy hcopy).2) bytes hoffset
      (Nat.le_add_right _ _) (by omega)
  refine ⟨batches, ?_, htiles, ⟨cuts, ?_, hperm⟩, hgathers⟩
  · have hwhole : (fileOffset % alignment ≠ 0 || bytes % alignment ≠ 0 || bytes = 0) = false := by
      simp [Nat.mod_eq_zero_of_dvd hoffset, Nat.mod_eq_zero_of_dvd hbytes]
      omega
    have hnone : copies.any (·.outside fileOffset (fileOffset + bytes)) = false := by
      rw [any_eq_false]
      intro copy hcopy
      have hcopy_inside := hinside copy hcopy
      rw [CopyRange.outside, boundedAdd_of_lt (hdevice copy hcopy), boundedAdd_of_lt (by omega)]
      simp
      omega
    rw [planWrites, fileEnd_of_lt hbound]
    simp only [hwhole, hnone, Bool.false_eq_true, if_false]
    exact hplan
  · -- no copy starts before the reservation, so nothing of it is cut off
    have hwhole : ∀ copy ∈ copies, copy.behind fileOffset = copy := by
      intro copy hcopy
      rw [CopyRange.behind, Nat.sub_eq_zero_of_le (hinside copy hcopy).1]
      rfl
    have hboth := (forall₂_and_left copies cuts).mpr ⟨hwhole, hcuts⟩
    exact hboth.imp fun copy cut hcut => hcut.1 ▸ hcut.2

theorem planWrites_refused {fileOffset : Nat}
    (hreserved : ¬CopiesReserved fileOffset bytes copies) :
    ∃ e, planWrites fileOffset bytes copies = fail e := by
  unfold planWrites
  by_cases hbound : fileOffset + bytes < 2 ^ 63
  · rw [fileEnd_of_lt hbound]
    dsimp only
    split
    case isTrue => exact ⟨_, rfl⟩
    case isFalse hwhole =>
      split
      case isTrue => exact ⟨_, rfl⟩
      case isFalse hnone =>
        simp only [any_eq_true, not_exists, not_and, Bool.not_eq_true] at hnone
        simp only [Bool.or_eq_true, decide_eq_true_eq, not_or, ne_eq, not_not] at hwhole
        obtain ⟨⟨hstart, hlength⟩, hpos⟩ := hwhole
        have hall : ∀ copy ∈ copies, (fileOffset ≤ copy.fileOffset ∧
            copy.fileOffset + copy.bytes ≤ fileOffset + bytes) ∧
            copy.device + copy.bytes < 2 ^ 64 := by
          intro copy hcopy
          have hcheck := hnone copy hcopy
          unfold CopyRange.outside boundedAdd u64Bound at hcheck
          split at hcheck <;> split at hcheck <;> simp at hcheck
          omega
        exact absurd ⟨Nat.dvd_of_mod_eq_zero hstart, Nat.dvd_of_mod_eq_zero hlength,
          Nat.pos_of_ne_zero hpos, hbound, fun copy hcopy => (hall copy hcopy).1,
          fun copy hcopy => (hall copy hcopy).2⟩ hreserved
  · have hnone : fileEnd fileOffset bytes = none := by
      unfold fileEnd boundedAdd
      split
      · simpa using hbound
      · rfl
    rw [hnone]
    exact ⟨_, rfl⟩

end OrbitKV
