import OrbitKV.Lib.Segmentation
import OrbitKV.Proof.FetchSegments

/-!
# Plans need the fewest segments

A part of a run that one owner covers within the limits is such a run again, so the longest pieces
are the fewest.
-/

namespace OrbitKV

open List

namespace FetchPlan

variable {start stop : Nat} {route : RouteSelection}

/-- `next_segment` called again and again, each time behind the last segment; the costs may be
different ones at each call. -/
def segmentsFrom (plan : FetchPlan) (routes : Nat → RouteSelection) : Nat → Nat →
    List FetchSegment
  | 0, _ => []
  | calls + 1, start =>
    match plan.nextSegment (routes start) start with
    | none => []
    | some segment =>
      segment :: plan.segmentsFrom routes calls (start + segment.records.length)

def segments (plan : FetchPlan) (routes : Nat → RouteSelection) : List FetchSegment :=
  plan.segmentsFrom routes plan.blockCount 0

def Fits (plan : FetchPlan) (ns : String) (start stop : Nat) : Prop :=
  ∃ owner, plan.OwnerFits ns.utf8ByteSize owner start stop

structure Uniform (plan : FetchPlan) (ns : String) : Prop where
  ns_eq : ∀ row ∈ plan.rows, row.key.ns = ns
  fits : ∀ row ∈ plan.rows, ns.utf8ByteSize + hashBytes [row] ≤ discoveryMaxBytes

variable {plan : FetchPlan} {ns : String} {routes : Nat → RouteSelection}

theorem OwnerFits.cut {bytes : Nat} {owner : CacheOwner} {middle : Nat}
    (hfits : plan.OwnerFits bytes owner start stop) (hstart : start ≤ middle)
    (hstop : middle < stop) : plan.OwnerFits bytes owner middle stop := by
  have hslice : plan.slice start (stop - start) =
      plan.slice start (middle - start) ++ plan.slice middle (stop - middle) := by
    have hsplit : stop - start = (middle - start) + (stop - middle) := by omega
    rw [hsplit, slice_add, Nat.add_sub_cancel' hstart]
  have hkeys := hfits.keys
  have hbytes := hfits.bytes
  rw [hslice, hashBytes_append] at hbytes
  refine ⟨hstop, hfits.within, by omega, by omega, fun row hrow => ?_⟩
  apply hfits.covers
  rw [hslice]
  exact mem_append_right _ hrow

theorem Fits.forward (hfits : plan.Fits ns start stop) : start < stop := by
  obtain ⟨_, howner⟩ := hfits
  exact howner.forward

theorem Fits.cut {middle : Nat} (hfits : plan.Fits ns start stop)
    (hstart : start ≤ middle) (hstop : middle < stop) : plan.Fits ns middle stop := by
  obtain ⟨owner, howner⟩ := hfits
  exact ⟨owner, howner.cut hstart hstop⟩

theorem Uniform.longest (huniform : plan.Uniform ns)
    {segment : FetchSegment} (hsegment : plan.nextSegment route start = some segment) :
    Longest (plan.Fits ns) start (start + segment.records.length) := by
  obtain ⟨row, hrow, hfits, hlongest⟩ := (segmentAt_of_nextSegment hsegment).row
  rw [huniform.ns_eq row (mem_of_getElem? hrow)] at hfits hlongest
  refine ⟨⟨segment.owner, hfits⟩, ?_⟩
  rintro stop ⟨owner, hother⟩
  exact hlongest owner stop hother

theorem Uniform.nextSegment_eq_none (huniform : plan.Uniform ns) {row : ReplicaSet}
    (hrow : plan.rows[start]? = some row)
    (hnone : plan.nextSegment route start = none) : row.peer plan.source.medium = [] := by
  by_contra hpeers
  obtain ⟨location, hlocation⟩ := exists_mem_of_ne_nil _ hpeers
  have hcovers : row.covers plan.source.medium location.owner :=
    List.any_eq_true.mpr ⟨location, hlocation, decide_eq_true rfl⟩
  have hmem := mem_of_getElem? hrow
  have hbytes := huniform.fits row hmem
  rw [← huniform.ns_eq row hmem, hashBytes_cons, hashBytes_nil, Nat.add_zero] at hbytes
  have hsome := isSome_nextSegment route hrow hcovers hbytes
  rw [hnone] at hsome
  cases hsome

def entries (segments : List FetchSegment) : List (CacheOwner × InventoryRecord) :=
  segments.flatMap fun segment => segment.records.map (segment.owner, ·)

structure Cuts (plan : FetchPlan) (ns : String) (routes : Nat → RouteSelection) (start stop : Nat)
    (segments : List FetchSegment) : Prop where
  longest : Segmentation (Longest (plan.Fits ns)) start stop segments.length
  advertised : List.Forall₂ (fun row entry => IsRecordOf plan.source.medium entry.1 row entry.2)
    (plan.slice start (stop - start)) (entries segments)
  requests : ∀ segment ∈ segments, segment.records.length ≤ discoveryMaxKeys ∧
    ns.utf8ByteSize + (segment.records.map (·.key.hash.length)).sum ≤ discoveryMaxBytes
  within : stop ≤ plan.blockCount
  stuck : plan.nextSegment (routes stop) stop = none

theorem nextSegment_of_blockCount_le
    (hstart : plan.blockCount ≤ start) : plan.nextSegment route start = none := by
  rw [nextSegment, selectedChoice, getElem?_eq_none hstart]
  rfl

theorem Cuts.nil (hwithin : start ≤ plan.blockCount)
    (hnone : plan.nextSegment (routes start) start = none) :
    plan.Cuts ns routes start start [] where
  longest := .done start
  advertised := by
    rw [Nat.sub_self, slice, take_zero]
    exact .nil
  requests := nofun
  within := hwithin
  stuck := hnone

theorem Uniform.cuts_cons (huniform : plan.Uniform ns) {segment : FetchSegment}
    (hsegment : plan.nextSegment route start = some segment) {rest : List FetchSegment}
    (hrest : plan.Cuts ns routes (start + segment.records.length) stop rest) :
    plan.Cuts ns routes start stop (segment :: rest) := by
  have hlongest := huniform.longest hsegment
  have hat := segmentAt_of_nextSegment hsegment
  have hle := Segmentation.le (fun _ _ hlong => hlong.1.forward) hrest.longest
  refine ⟨.piece hlongest hrest.longest, ?_, ?_, hrest.within, hrest.stuck⟩
  · have hsplit : stop - start =
        segment.records.length + (stop - (start + segment.records.length)) := by omega
    rw [hsplit, slice_add, entries, flatMap_cons]
    have hhere : List.Forall₂ (fun row entry => IsRecordOf plan.source.medium entry.1 row entry.2)
        (plan.slice start segment.records.length) (segment.records.map (segment.owner, ·)) :=
      List.forall₂_map_right_iff.mpr hat.records
    exact rel_append hhere hrest.advertised
  · intro other hother
    rcases List.mem_cons.mp hother with rfl | hmem
    · obtain ⟨⟨owner, hfits⟩, _⟩ := hlongest
      have hkeys := hfits.keys
      have hbytes := hfits.bytes
      rw [Nat.add_sub_cancel_left] at hkeys hbytes
      rw [← hashBytes_of_isRecordOf hat.records] at hbytes
      exact ⟨hkeys, hbytes⟩
    · exact hrest.requests other hmem

theorem Uniform.cuts_segmentsFrom (huniform : plan.Uniform ns) (routes : Nat → RouteSelection)
    {calls : Nat} (hstart : start ≤ plan.blockCount) (hcalls : plan.blockCount ≤ start + calls) :
    ∃ stop, plan.Cuts ns routes start stop (plan.segmentsFrom routes calls start) := by
  induction calls generalizing start with
  | zero => exact ⟨start, .nil hstart (nextSegment_of_blockCount_le hcalls)⟩
  | succ calls ih =>
    rw [segmentsFrom]
    split
    next hnone => exact ⟨start, .nil hstart hnone⟩
    next segment hsegment =>
      obtain ⟨⟨owner, hfits⟩, _⟩ := huniform.longest hsegment
      have hforward := hfits.forward
      obtain ⟨stop, hrest⟩ := ih hfits.within (by omega)
      exact ⟨stop, huniform.cuts_cons hsegment hrest⟩

theorem length_takeWhile_eq {α : Type} {p : α → Bool} {xs : List α} {count : Nat}
    (hcount : count ≤ xs.length) (hbefore : ∀ x ∈ xs.take count, p x)
    (hat : ∀ x, xs[count]? = some x → p x = false) : (xs.takeWhile p).length = count := by
  have hrest : (xs.drop count).takeWhile p = [] := by
    cases hdrop : xs.drop count with
    | nil => rfl
    | cons x rest =>
      apply takeWhile_cons_of_neg
      have hx : xs[count]? = some x := by
        rw [← head?_drop, hdrop]
        rfl
      simp [hat x hx]
  calc (xs.takeWhile p).length
      = ((xs.take count ++ xs.drop count).takeWhile p).length := by rw [take_append_drop]
    _ = (xs.take count ++ (xs.drop count).takeWhile p).length := by
        rw [takeWhile_append_of_pos hbefore]
    _ = count := by rw [hrest, append_nil, length_take, Nat.min_eq_left hcount]

theorem Uniform.stop_eq_prefixLen (huniform : plan.Uniform ns)
    {segments : List FetchSegment} (hcuts : plan.Cuts ns routes 0 stop segments) :
    stop = prefixLen plan.rows plan.source := by
  symm
  apply length_takeWhile_eq hcuts.within
  · have hpeers : List.Forall₂
        (fun (row : ReplicaSet) (_ : CacheOwner × InventoryRecord) =>
          (!(row.peer plan.source.medium).isEmpty) = true ∧ True)
        (plan.slice 0 stop) (entries segments) := by
      apply hcuts.advertised.imp
      intro row entry hrecord
      obtain ⟨replica, hmem, _⟩ := hrecord.replica
      simp [ne_nil_of_mem hmem]
    exact ((forall₂_and_left _ _).mp hpeers).1
  · intro row hrow
    rw [huniform.nextSegment_eq_none hrow hcuts.stuck]
    rfl

/-- Calling `next_segment` from the first row on covers the rows up to the first one without a peer,
record by record as advertised and within the limits of a request, and no way to cut these rows into
such requests needs fewer; at a row with a peer, `next_segment` finds a segment. -/
theorem next_segment_fewest (plan : FetchPlan) (ns : String) (routes : Nat → RouteSelection)
    (huniform : plan.Uniform ns) :
    List.Forall₂ (fun row entry => IsRecordOf plan.source.medium entry.1 row entry.2)
        (plan.rows.take (prefixLen plan.rows plan.source)) (entries (plan.segments routes)) ∧
      (∀ segment ∈ plan.segments routes, segment.records.length ≤ discoveryMaxKeys ∧
        ns.utf8ByteSize + (segment.records.map (·.key.hash.length)).sum ≤ discoveryMaxBytes) ∧
      Segmentation (plan.Fits ns) 0 (prefixLen plan.rows plan.source)
        (plan.segments routes).length ∧
      (∀ count, Segmentation (plan.Fits ns) 0 (prefixLen plan.rows plan.source) count →
        (plan.segments routes).length ≤ count) ∧
      ∀ route start row, plan.rows[start]? = some row → plan.nextSegment route start = none →
        row.peer plan.source.medium = [] := by
  obtain ⟨stop, hcuts⟩ := huniform.cuts_segmentsFrom routes (Nat.zero_le _) (Nat.zero_add _).ge
  obtain rfl := huniform.stop_eq_prefixLen hcuts
  refine ⟨hcuts.advertised, hcuts.requests, hcuts.longest.mono fun _ _ hlong => hlong.1, ?_, ?_⟩
  · intro count hother
    exact hcuts.longest.longest_le (fun _ _ => Fits.forward) (fun _ _ _ => Fits.cut) le_rfl hother
  · intro route start row hrow hnone
    exact huniform.nextSegment_eq_none hrow hnone

def plainRoute : RouteSelection where
  enabled := false
  select _ := 0
  select_lt _ hkeys := List.length_pos_iff.mpr hkeys

def sampleRow (hash : UInt8) (owners : List CacheOwner) : ReplicaSet :=
  (ReplicaSet.new ⟨"model", [hash]⟩).setPeers
    (owners.map fun owner => ⟨owner, hash.toNat, ⟨.dram, .raw, some 4096⟩⟩)

/-- Three rows: the first peer has the first two, the second one the first and the last. -/
def samplePlan : FetchPlan where
  rows := [sampleRow 1 [⟨"a", 1⟩, ⟨"b", 2⟩], sampleRow 2 [⟨"a", 1⟩], sampleRow 3 [⟨"b", 2⟩]]
  source := .dram

theorem samplePlan_uniform : samplePlan.Uniform "model" := by
  constructor <;> decide +kernel

theorem samplePlan_cut : Segmentation (samplePlan.Fits "model") 0 3 2 := by
  have hfirst : samplePlan.Fits "model" 0 2 := ⟨⟨"a", 1⟩, by constructor <;> decide +kernel⟩
  have hlast : samplePlan.Fits "model" 2 3 := ⟨⟨"b", 2⟩, by constructor <;> decide +kernel⟩
  exact .piece hfirst (.piece hlast (.done 3))

theorem next_segment_fewest_two :
    samplePlan.Uniform "model" ∧ (samplePlan.segments fun _ => plainRoute).length ≤ 2 := by
  have hfewest := next_segment_fewest samplePlan "model" (fun _ => plainRoute) samplePlan_uniform
  have hcovered : prefixLen samplePlan.rows samplePlan.source = 3 := by decide +kernel
  rw [hcovered] at hfewest
  exact ⟨samplePlan_uniform, hfewest.2.2.2.1 2 samplePlan_cut⟩

end FetchPlan

end OrbitKV
