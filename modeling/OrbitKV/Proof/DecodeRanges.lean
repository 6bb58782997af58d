import OrbitKV.Gpu.Codec

/-! # What the decoder may touch -/

namespace OrbitKV

theorem forM_eq_ok {ε α : Type} {f : α → Except ε Unit} {xs : List α} {u : Unit} :
    xs.forM f = .ok u ↔ ∀ x ∈ xs, f x = .ok () := by
  induction xs with
  | nil => simp [pure, Except.pure]
  | cons x xs ih =>
    change (f x >>= fun _ => xs.forM f) = _ ↔ _
    rw [bind_eq_ok_iff, Unique.exists_iff, ih, List.forall_mem_cons]

theorem mapM_checked_eq_ok {ε α β : Type} {check : α → Except ε Unit} {g : α → β} {xs : List α}
    {ys : List β} : (xs.mapM fun x => do check x; return g x) = .ok ys ↔
      (∀ x ∈ xs, check x = .ok ()) ∧ ys = xs.map g := by
  induction xs generalizing ys with
  | nil => simp [pure, Except.pure, eq_comm]
  | cons x xs ih =>
    simp only [List.mapM_cons, bind_eq_ok_iff, pure_eq_ok, ih, List.forall_mem_cons, List.map_cons,
      Unique.exists_iff]
    constructor
    · rintro ⟨_, ⟨hx, rfl⟩, _, ⟨hxs, rfl⟩, rfl⟩
      exact ⟨⟨hx, hxs⟩, rfl⟩
    · rintro ⟨⟨hx, hxs⟩, rfl⟩
      exact ⟨_, ⟨hx, rfl⟩, _, ⟨hxs, rfl⟩, rfl⟩

theorem refuseIf_eq_ok {condition : Prop} [Decidable condition] {error : String} {u : Unit} :
    refuseIf condition error = .ok u ↔ ¬ condition := by
  simp [refuseIf]

theorem onDevice_eq_ok {host : Bool} {check : Except String Unit} {u : Unit} :
    onDevice host check = .ok u ↔ (host = false → check = .ok ()) := by
  cases host <;> simp [onDevice]

theorem rangeFrom_lt {pointer bytes : Nat} (hcheck : checkRange pointer bytes = .ok ()) :
    (rangeFrom pointer bytes).1 < (rangeFrom pointer bytes).2 := by
  refine Nat.lt_add_of_pos_right (Nat.pos_of_ne_zero ?_)
  rintro rfl
  simp [checkRange, refuseIf] at hcheck

theorem validateTargets_eq_ok {ranges targets : List (Nat × Nat)} :
    validateTargets ranges = .ok targets ↔
      (∀ range ∈ ranges, checkRange range.1 range.2 = .ok ()) ∧
      targets = sortRanges (ranges.map fun range => rangeFrom range.1 range.2) ∧
      neighboursOverlap targets = false := by
  simp only [validateTargets, bind_eq_ok_iff, mapM_checked_eq_ok, refuseIf_eq_ok, pure_eq_ok]
  constructor
  · rintro ⟨_, ⟨hcheck, rfl⟩, -, hoverlap, rfl⟩
    exact ⟨hcheck, rfl, by simpa using hoverlap⟩
  · rintro ⟨hcheck, rfl, hoverlap⟩
    exact ⟨_, ⟨hcheck, rfl⟩, (), by simp [hoverlap], rfl⟩

def Arena.range (arena : Arena) : Nat × Nat :=
  rangeFrom arena.allocation arena.bytes

theorem Arena.not_overlap_iff {arena : Arena} {pointer bytes : Nat}
    (hcheck : checkRange pointer bytes = .ok ()) :
    ¬ arena.Overlap pointer bytes ↔ Apart (rangeFrom pointer bytes) arena.range := by
  have hrange : arena.range.1 < arena.range.2 := Nat.lt_add_of_pos_right arena.bytes_pos
  exact (apart_iff (rangeFrom_lt hcheck) hrange).symm

namespace DecodeInput

variable {input : DecodeInput} {arena : Option Arena} {host : Bool}

def targetRange (input : DecodeInput) : Nat × Nat :=
  rangeFrom input.target input.segment.logicalBytes

def sourceRange (input : DecodeInput) : Nat × Nat :=
  rangeFrom input.source input.segment.storedBytes

structure Checked (host : Bool) (input : DecodeInput) : Prop where
  target : checkRange input.target input.segment.logicalBytes = .ok ()
  source : host = false → checkRange input.source input.segment.storedBytes = .ok ()
  metadata : input.segment.validateMetadata input.sourceBytes = .ok ()
  capacity : input.segment.logicalBytes ≤ input.targetBytes
  target_aligned : input.target % input.alignment = 0
  source_aligned : host = false → (ansType input.segment.format).isSome → input.source % 8 = 0

theorem validate_eq_ok (htarget : checkRange input.target input.segment.logicalBytes = .ok ()) :
    input.validate arena host = .ok () ↔ input.Checked host ∧
      ∀ area ∈ arena, Apart input.targetRange area.range ∧
        (host = false → Apart input.sourceRange area.range) := by
  simp only [validate, bind_eq_ok_iff, Unique.exists_iff, refuseIf_eq_ok, onDevice_eq_ok]
  push Not
  constructor
  · rintro ⟨hmetadata, hcapacity, hsource, ⟨htarget', hsource'⟩, harena⟩
    refine ⟨⟨htarget, hsource, hmetadata, hcapacity, htarget', hsource'⟩, fun area hmem => ?_⟩
    obtain ⟨hnot, hnot'⟩ := harena area hmem
    exact ⟨(area.not_overlap_iff htarget).mp hnot,
      fun hhost => (area.not_overlap_iff (hsource hhost)).mp (hnot' hhost)⟩
  · rintro ⟨hchecked, harena⟩
    refine ⟨hchecked.metadata, hchecked.capacity, hchecked.source,
      ⟨hchecked.target_aligned, hchecked.source_aligned⟩, fun area hmem => ?_⟩
    obtain ⟨hapart, hapart'⟩ := harena area hmem
    exact ⟨(area.not_overlap_iff htarget).mpr hapart,
      fun hhost => (area.not_overlap_iff (hchecked.source hhost)).mpr (hapart' hhost)⟩

theorem validateSource_eq_ok {inputs : List DecodeInput}
    (htargets : ∀ range ∈ inputs.map targetRange, range.1 < range.2)
    (hoverlap : neighboursOverlap (sortRanges (inputs.map targetRange)) = false)
    (hsource : checkRange input.source input.segment.storedBytes = .ok ()) :
    input.validateSource (sortRanges (inputs.map targetRange)) = .ok () ↔
      ∀ a ∈ inputs, Apart a.targetRange input.sourceRange := by
  have hsorted : ∀ range ∈ sortRanges (inputs.map targetRange), range.1 < range.2 :=
    fun range hmem => htargets range (mem_sortRanges.mp hmem)
  have hlt : input.sourceRange.1 < input.sourceRange.2 := rangeFrom_lt hsource
  simp only [validateSource, refuseIf_eq_ok]
  rw [← exists_meets_iff ((neighboursOverlap_eq_false hsorted).mp hoverlap)]
  simp only [mem_sortRanges, not_exists, not_and, List.forall_mem_map]
  refine forall₂_congr fun a ha => ?_
  rw [apart_iff (htargets _ (List.mem_map_of_mem ha)) hlt, not_and]
  rfl

end DecodeInput

structure RangesDisjoint (arena : Option Arena) (inputs : List DecodeInput) (host : Bool) :
    Prop where
  targets : inputs.Pairwise fun a b => Apart a.targetRange b.targetRange
  sources : host = false → ∀ a ∈ inputs, ∀ b ∈ inputs, Apart a.targetRange b.sourceRange
  arena : ∀ area ∈ arena, ∀ input ∈ inputs, Apart input.targetRange area.range ∧
    (host = false → Apart input.sourceRange area.range)

/-- **Validation of a batch**: apart from the size of the batch and the checks on each input, exactly
disjointness is required. -/
theorem validate_decode_iff (arena : Option Arena) (inputs : List DecodeInput) (host : Bool) :
    validateDecode arena inputs host = .ok () ↔ inputs.length ≤ maxBatchSegments ∧
      (∀ input ∈ inputs, input.Checked host) ∧ RangesDisjoint arena inputs host := by
  simp only [validateDecode, bind_eq_ok_iff, Unique.exists_iff, refuseIf_eq_ok, onDevice_eq_ok,
    forM_eq_ok, validateTargets_eq_ok, not_lt, List.forall_mem_map, List.map_map]
  refine and_congr_right fun _ => ?_
  have hranges (htarget : ∀ input ∈ inputs,
      checkRange input.target input.segment.logicalBytes = .ok ()) :
      ∀ range ∈ inputs.map DecodeInput.targetRange, range.1 < range.2 :=
    List.forall_mem_map.mpr fun input hmem => rangeFrom_lt (htarget input hmem)
  constructor
  · rintro ⟨_, ⟨htarget, rfl, hoverlap⟩, hvalid, hsource⟩
    have hinput := fun input hmem =>
      (DecodeInput.validate_eq_ok (htarget input hmem)).mp (hvalid input hmem)
    refine ⟨fun input hmem => (hinput input hmem).1, ?_, fun hhost a ha b hb => ?_,
      fun area harea input hmem => (hinput input hmem).2 area harea⟩
    · exact List.pairwise_map.mp ((pairwise_apart_iff (hranges htarget)).mpr hoverlap)
    · exact (DecodeInput.validateSource_eq_ok (hranges htarget) hoverlap
        ((hinput b hb).1.source hhost)).mp (hsource hhost b hb) a ha
  · rintro ⟨hchecked, hdisjoint⟩
    have htarget := fun input hmem => (hchecked input hmem).target
    have hoverlap := (pairwise_apart_iff (hranges htarget)).mp
      (List.pairwise_map.mpr hdisjoint.targets)
    refine ⟨_, ⟨htarget, rfl, hoverlap⟩, fun input hmem => ?_, fun hhost input hmem => ?_⟩
    · exact (DecodeInput.validate_eq_ok (htarget input hmem)).mpr
        ⟨hchecked input hmem, fun area harea => hdisjoint.arena area harea input hmem⟩
    · exact (DecodeInput.validateSource_eq_ok (hranges htarget) hoverlap
        ((hchecked input hmem).source hhost)).mpr fun a ha => hdisjoint.sources hhost a ha input hmem

end OrbitKV
