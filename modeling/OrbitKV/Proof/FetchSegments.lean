import OrbitKV.Planning.Peer

/-!
# Segments of a plan

`next_segment` finds the longest run of rows that one owner covers within the limits of a request.
-/

namespace OrbitKV

open Std List

theorem mapM_eq_some_iff {α β : Type} {f : α → Option β} {xs : List α} {ys : List β} :
    xs.mapM f = some ys ↔ List.Forall₂ (fun x y => f x = some y) xs ys := by
  induction xs generalizing ys with
  | nil => simp [mapM_nil, eq_comm]
  | cons x xs ih =>
    rw [mapM_cons, forall₂_cons_left_iff]
    simp only [Option.bind_eq_bind, Option.bind_eq_some_iff, Option.pure_def, Option.some.injEq, ih]
    constructor
    · rintro ⟨y, hy, rest, hrest, rfl⟩
      exact ⟨y, rest, hy, hrest, rfl⟩
    · rintro ⟨y, rest, hy, hrest, rfl⟩
      exact ⟨y, hy, rest, hrest, rfl⟩

theorem isSome_mapM {α β : Type} {f : α → Option β} {xs : List α}
    (hsome : ∀ x ∈ xs, (f x).isSome) : (xs.mapM f).isSome := by
  induction xs with
  | nil => rfl
  | cons x xs ih =>
    obtain ⟨y, hy⟩ := Option.isSome_iff_exists.mp (hsome x mem_cons_self)
    obtain ⟨ys, hys⟩ := Option.isSome_iff_exists.mp
      (ih fun x' hx' => hsome x' (mem_cons_of_mem _ hx'))
    rw [mapM_cons, hy, hys]
    rfl

def hashBytes (rows : List ReplicaSet) : Nat :=
  (rows.map (·.key.hash.length)).sum

@[simp] theorem hashBytes_nil : hashBytes [] = 0 := rfl

@[simp] theorem hashBytes_cons (row : ReplicaSet) (rows : List ReplicaSet) :
    hashBytes (row :: rows) = row.key.hash.length + hashBytes rows := by
  simp [hashBytes]

theorem hashBytes_append (rows rest : List ReplicaSet) :
    hashBytes (rows ++ rest) = hashBytes rows + hashBytes rest := by
  simp [hashBytes]

theorem saturatingAdd_le_iff {a b : Nat} :
    saturatingAdd a b ≤ discoveryMaxBytes ↔ a + b ≤ discoveryMaxBytes := by
  unfold saturatingAdd discoveryMaxBytes u64Bound
  omega

theorem saturatingAdd_of_le {a b : Nat} (hle : a + b ≤ discoveryMaxBytes) :
    saturatingAdd a b = a + b := by
  unfold discoveryMaxBytes at hle
  unfold saturatingAdd u64Bound
  omega

section

variable {medium : ReplicaMedium} {owner : CacheOwner}
  {bytes : Nat} {rows : List ReplicaSet}

theorem coverage_cons_of_fits {row : ReplicaSet} (hcovers : row.covers medium owner)
    (hbytes : bytes + row.key.hash.length ≤ discoveryMaxBytes) :
    coverage medium owner bytes (row :: rows) =
      coverage medium owner (bytes + row.key.hash.length) rows + 1 := by
  rw [coverage, if_pos hcovers, if_pos (saturatingAdd_le_iff.mpr hbytes),
    saturatingAdd_of_le hbytes]

theorem coverage_cons_of_not_fits {row : ReplicaSet}
    (hover : row.covers medium owner → discoveryMaxBytes < bytes + row.key.hash.length) :
    coverage medium owner bytes (row :: rows) = 0 := by
  rw [coverage]
  split
  next hcovers => exact if_neg (saturatingAdd_le_iff.not.mpr (Nat.not_le.mpr (hover hcovers)))
  next => rfl

theorem le_coverage_iff {count : Nat} :
    count ≤ coverage medium owner bytes rows ↔
      count ≤ rows.length ∧ (∀ row ∈ rows.take count, row.covers medium owner) ∧
        (0 < count → bytes + hashBytes (rows.take count) ≤ discoveryMaxBytes) := by
  induction rows generalizing bytes count with
  | nil =>
    rw [coverage]
    constructor
    · intro hle
      obtain rfl := Nat.le_zero.mp hle
      simp
    · rintro ⟨hle, _⟩
      exact hle
  | cons row rows ih =>
    cases count with
    | zero => simp
    | succ count =>
      by_cases hfits : row.covers medium owner ∧ bytes + row.key.hash.length ≤ discoveryMaxBytes
      · rw [coverage_cons_of_fits hfits.1 hfits.2, Nat.succ_le_succ_iff, ih, take_succ_cons,
          forall_mem_cons, hashBytes_cons, length_cons, Nat.succ_le_succ_iff,
          ← Nat.add_assoc]
        constructor
        · rintro ⟨hlength, hcovers, hbytes⟩
          refine ⟨hlength, ⟨hfits.1, hcovers⟩, fun _ => ?_⟩
          cases count with
          | zero => simpa using hfits.2
          | succ count => exact hbytes (Nat.succ_pos count)
        · rintro ⟨hlength, ⟨_, hcovers⟩, hbytes⟩
          exact ⟨hlength, hcovers, fun _ => hbytes (Nat.succ_pos count)⟩
      · rw [coverage_cons_of_not_fits fun hcovers => Nat.not_le.mp fun hle => hfits ⟨hcovers, hle⟩,
          take_succ_cons, forall_mem_cons, hashBytes_cons]
        constructor
        · intro hle
          omega
        · rintro ⟨_, ⟨hcovers, _⟩, hbytes⟩
          have hle := hbytes (Nat.succ_pos count)
          exact absurd ⟨hcovers, by omega⟩ hfits

end

structure IsRecordOf (medium : ReplicaMedium) (owner : CacheOwner) (row : ReplicaSet)
    (record : InventoryRecord) : Prop where
  key : record.key = row.key
  present : record.present = true
  replica : ∃ replica ∈ row.peer medium, replica.owner = owner ∧
    record.sequence = replica.sequence ∧ record.metadata = some replica.metadata ∧
    ∀ other ∈ row.peer medium, other.owner = owner → other = replica

theorem keys_of_isRecordOf {medium : ReplicaMedium} {owner : CacheOwner} {rows : List ReplicaSet}
    {records : List InventoryRecord} (hrecords : List.Forall₂ (IsRecordOf medium owner) rows records) :
    records.map (·.key) = rows.map (·.key) := by
  induction hrecords with
  | nil => rfl
  | cons hrecord _ ih => rw [map_cons, map_cons, hrecord.key, ih]

theorem hashBytes_of_isRecordOf {medium : ReplicaMedium} {owner : CacheOwner}
    {rows : List ReplicaSet} {records : List InventoryRecord}
    (hrecords : List.Forall₂ (IsRecordOf medium owner) rows records) :
    (records.map (·.key.hash.length)).sum = hashBytes rows := by
  have hkeys := congrArg (List.map (·.hash.length)) (keys_of_isRecordOf hrecords)
  rw [map_map, map_map] at hkeys
  exact congrArg List.sum hkeys

namespace FetchPlan

variable {plan : FetchPlan} {route : RouteSelection} {start : Nat}

variable {row : ReplicaSet} {owner : CacheOwner}
  {count : Nat} {candidate : CacheOwner × Nat}

theorem slice_succ (hrow : plan.rows[start]? = some row) (count : Nat) :
    plan.slice start (count + 1) = row :: plan.slice (start + 1) count := by
  obtain ⟨hlt, rfl⟩ := List.getElem?_eq_some_iff.mp hrow
  rw [slice, drop_eq_getElem_cons hlt, take_succ_cons, slice]

theorem slice_add (plan : FetchPlan) (start first second : Nat) :
    plan.slice start (first + second) =
      plan.slice start first ++ plan.slice (start + first) second := by
  rw [slice, take_add, drop_drop]
  rfl

theorem isRecordOf_of_record {medium : ReplicaMedium}
    {entry : InventoryRecord} (hrecord : record medium owner row = some entry) :
    IsRecordOf medium owner row entry := by
  obtain ⟨replica, hreplica, rfl⟩ := Option.map_eq_some_iff.mp hrecord
  obtain ⟨hmem, howner, hunique⟩ := ReplicaSet.replicaOf_eq_some hreplica
  exact ⟨rfl, rfl, replica, hmem, howner, rfl, rfl, hunique⟩

theorem isSome_record {medium : ReplicaMedium}
    (hcovers : row.covers medium owner) : (record medium owner row).isSome := by
  rwa [record, Option.isSome_map, ReplicaSet.isSome_replicaOf]

theorem isSome_shapeForOwner
    (hcovers : ∀ row ∈ plan.slice start count, row.covers plan.source.medium owner) :
    (plan.shapeForOwner start count owner).isSome := by
  unfold shapeForOwner
  generalize ((some 0, none) : Option Nat × Option ReplicaRepresentation) = shape
  revert hcovers
  induction plan.slice start count generalizing shape with
  | nil => exact fun _ => rfl
  | cons row rows ih =>
    intro hcovers
    obtain ⟨hrow, hrows⟩ := List.forall_mem_cons.mp hcovers
    obtain ⟨replica, hreplica⟩ := Option.isSome_iff_exists.mp
      ((ReplicaSet.isSome_replicaOf _ _ _).trans hrow)
    rw [foldlM_cons, addShape, hreplica]
    exact ih _ hrows

structure OwnerFits (plan : FetchPlan) (bytes : Nat) (owner : CacheOwner) (start stop : Nat) :
    Prop where
  forward : start < stop
  within : stop ≤ plan.rows.length
  keys : stop - start ≤ discoveryMaxKeys
  bytes : bytes + hashBytes (plan.slice start (stop - start)) ≤ discoveryMaxBytes
  covers : ∀ row ∈ plan.slice start (stop - start), row.covers plan.source.medium owner

theorem le_runLength_iff (hcount : 0 < count) :
    count ≤ plan.runLength start row owner ↔
      plan.OwnerFits row.key.ns.utf8ByteSize owner start (start + count) := by
  have htake (hle : count ≤ discoveryMaxKeys) :
      (plan.slice start discoveryMaxKeys).take count = plan.slice start count := by
    rw [slice, slice, take_take, Nat.min_eq_left hle]
  have hlength : (plan.slice start discoveryMaxKeys).length =
      min discoveryMaxKeys (plan.rows.length - start) := by
    rw [slice, length_take, length_drop]
  rw [runLength, le_coverage_iff, hlength]
  constructor
  · rintro ⟨hle, hcovers, hbytes⟩
    rw [htake (by omega)] at hcovers hbytes
    refine ⟨by omega, by omega, by omega, ?_, ?_⟩
    · rw [Nat.add_sub_cancel_left]
      exact hbytes hcount
    · rwa [Nat.add_sub_cancel_left]
  · rintro ⟨hforward, hwithin, hkeys, hbytes, hcovers⟩
    rw [Nat.add_sub_cancel_left] at hkeys hbytes hcovers
    rw [htake hkeys]
    exact ⟨by omega, hcovers, fun _ => hbytes⟩

theorem mem_candidates_iff :
    candidate ∈ plan.candidates start row ↔
      row.covers plan.source.medium candidate.1 ∧
        candidate.2 = plan.runLength start row candidate.1 ∧ 0 < candidate.2 := by
  rw [candidates, mem_insertionSort, mem_filterMap]
  constructor
  · rintro ⟨location, hmem, hfound⟩
    dsimp only at hfound
    split at hfound
    next => cases hfound
    next hpos =>
      cases hfound
      exact ⟨List.any_eq_true.mpr ⟨location, hmem, decide_eq_true rfl⟩, rfl, Nat.pos_of_ne_zero hpos⟩
  · rintro ⟨hcovers, hcount, hpos⟩
    obtain ⟨location, hmem, howner⟩ := List.any_eq_true.mp hcovers
    refine ⟨location, hmem, ?_⟩
    rw [of_decide_eq_true howner, ← hcount]
    exact if_neg hpos.ne'

instance : TransCmp rankCandidates :=
  have : TransCmp fun first second : CacheOwner × Nat => compare second.2 first.2 :=
    inferInstanceAs (TransCmp fun first second => compareOn Prod.snd second first)
  have : TransCmp fun first second : CacheOwner × Nat => compare first.1 second.1 :=
    inferInstanceAs (TransCmp (compareOn Prod.fst))
  inferInstanceAs (TransCmp (compareLex _ _))

theorem sorted_candidates : (plan.candidates start row).Pairwise fun first second =>
    (rankCandidates first second).isLE := by
  have : Std.Total fun first second => (rankCandidates first second).isLE := by
    constructor
    intro first second
    have hswap : rankCandidates second first = (rankCandidates first second).swap :=
      OrientedCmp.eq_swap
    rw [hswap]
    cases rankCandidates first second <;> decide
  have : IsTrans _ fun first second => (rankCandidates first second).isLE :=
    ⟨fun _ _ _ => TransCmp.isLE_trans⟩
  exact pairwise_insertionSort _ _

theorem le_of_head?_candidates {longest : CacheOwner × Nat}
    (hhead : (plan.candidates start row).head? = some longest)
    (hcandidate : candidate ∈ plan.candidates start row) : candidate.2 ≤ longest.2 := by
  obtain ⟨rest, hrest⟩ := List.head?_eq_some_iff.mp hhead
  have hsorted : (plan.candidates start row).Pairwise _ := sorted_candidates
  rw [hrest] at hsorted hcandidate
  rcases List.mem_cons.mp hcandidate with rfl | hmem
  · exact le_rfl
  · have hrank := Ordering.isLE_left_of_isLE_then (rel_of_pairwise_cons hsorted hmem)
    exact Nat.isLE_compare.mp hrank

structure Chosen (plan : FetchPlan) (start : Nat) (row : ReplicaSet) (choice : PeerChoice) :
    Prop where
  at_start : plan.rows[start]? = some row
  candidate : (choice.owner, choice.count) ∈ plan.candidates start row
  longest : ∀ candidate ∈ plan.candidates start row, candidate.2 ≤ choice.count

theorem chosen_of_selectedChoice {choice : PeerChoice}
    (hchoice : plan.selectedChoice route start = some choice) :
    ∃ row, plan.Chosen start row choice := by
  simp only [selectedChoice, Option.bind_eq_bind, Option.bind_eq_some_iff, Option.pure_def,
    Option.some.injEq] at hchoice
  obtain ⟨row, hrow, longest, hhead, selected, _, chosen, hchosen, shape, _, rfl⟩ := hchoice
  obtain ⟨hmem, hcount⟩ := List.mem_filter.mp (mem_of_getElem? hchosen)
  refine ⟨row, hrow, ?_, fun candidate => le_of_head?_candidates hhead⟩
  rwa [← of_decide_eq_true hcount]

theorem owner_covers_slice (hcandidate : candidate ∈ plan.candidates start row) :
    plan.OwnerFits row.key.ns.utf8ByteSize candidate.1 start (start + candidate.2) := by
  obtain ⟨_, hcount, hpos⟩ := mem_candidates_iff.mp hcandidate
  exact (le_runLength_iff hpos).mp hcount.le

theorem isSome_selectedIndex (route : RouteSelection) {row : ReplicaSet}
    {best : List (CacheOwner × Nat)} (hbest : best ≠ [])
    (hcandidates : ∀ candidate ∈ best, candidate ∈ plan.candidates start row ∧ candidate.2 = count) :
    ∃ selected, plan.selectedIndex route start count best = some selected ∧
      selected < best.length := by
  unfold selectedIndex
  split
  next =>
    have hkeys : (best.mapM fun candidate => plan.costKey start count candidate.1).isSome := by
      apply isSome_mapM
      intro candidate hmem
      obtain ⟨hcandidate, rfl⟩ := hcandidates candidate hmem
      have hcovers := (owner_covers_slice hcandidate).covers
      rw [Nat.add_sub_cancel_left] at hcovers
      rw [costKey, Option.isSome_map]
      exact isSome_shapeForOwner hcovers
    obtain ⟨keys, hkeys⟩ := Option.isSome_iff_exists.mp hkeys
    have hlength := (mapM_eq_some_iff.mp hkeys).length_eq
    refine ⟨route.select keys, by rw [hkeys]; rfl, ?_⟩
    rw [hlength]
    apply route.select_lt
    rintro rfl
    exact hbest (List.length_eq_zero_iff.mp hlength)
  next => exact ⟨0, rfl, List.length_pos_iff.mpr hbest⟩

theorem isSome_selectedChoice (route : RouteSelection) {row : ReplicaSet}
    (hrow : plan.rows[start]? = some row) (hcandidates : plan.candidates start row ≠ []) :
    (plan.selectedChoice route start).isSome := by
  obtain ⟨longest, rest, hsorted⟩ := exists_cons_of_ne_nil hcandidates
  have hlongest : longest ∈ plan.candidates start row := hsorted ▸ mem_cons_self
  have hbest : ∀ candidate ∈ (plan.candidates start row).filter (·.2 = longest.2),
      candidate ∈ plan.candidates start row ∧ candidate.2 = longest.2 := by
    intro candidate hmem
    obtain ⟨hmem, hcount⟩ := List.mem_filter.mp hmem
    exact ⟨hmem, of_decide_eq_true hcount⟩
  have hkept : longest ∈ (plan.candidates start row).filter (·.2 = longest.2) :=
    List.mem_filter.mpr ⟨hlongest, decide_eq_true rfl⟩
  obtain ⟨selected, hselected, hlt⟩ := isSome_selectedIndex route (ne_nil_of_mem hkept) hbest
  have hchosen := getElem?_eq_getElem hlt
  obtain ⟨hcandidate, hcount⟩ := hbest _ (getElem_mem hlt)
  have hcovers := (owner_covers_slice hcandidate).covers
  rw [Nat.add_sub_cancel_left, hcount] at hcovers
  obtain ⟨shape, hshape⟩ := Option.isSome_iff_exists.mp (isSome_shapeForOwner hcovers)
  have hhead : (plan.candidates start row).head? = some longest := by rw [hsorted]; rfl
  simp only [selectedChoice, hrow, hhead, hselected, hchosen, hshape, Option.bind_eq_bind,
    Option.bind_some, Option.pure_def, Option.isSome_some]

structure SegmentAt (plan : FetchPlan) (start : Nat) (segment : FetchSegment) : Prop where
  row : ∃ row, plan.rows[start]? = some row ∧
    plan.OwnerFits row.key.ns.utf8ByteSize segment.owner start (start + segment.records.length) ∧
    ∀ owner stop, plan.OwnerFits row.key.ns.utf8ByteSize owner start stop →
      stop ≤ start + segment.records.length
  records : List.Forall₂ (IsRecordOf plan.source.medium segment.owner)
    (plan.slice start segment.records.length) segment.records
  source : segment.source = plan.source

theorem segmentAt_of_nextSegment {segment : FetchSegment}
    (hsegment : plan.nextSegment route start = some segment) : plan.SegmentAt start segment := by
  simp only [nextSegment, Option.bind_eq_bind, Option.bind_eq_some_iff, Option.pure_def,
    Option.some.injEq] at hsegment
  obtain ⟨choice, hchoice, records, hrecords, rfl⟩ := hsegment
  obtain ⟨row, hchosen⟩ := chosen_of_selectedChoice hchoice
  have hfits := owner_covers_slice hchosen.candidate
  have hmapped := mapM_eq_some_iff.mp hrecords
  have hlength : records.length = choice.count := by
    have hwithin := hfits.within
    rw [← hmapped.length_eq, slice, length_take, length_drop]
    omega
  rw [← hlength] at hfits hmapped
  refine ⟨⟨row, hchosen.at_start, hfits, ?_⟩, hmapped.imp fun _ _ => isRecordOf_of_record, rfl⟩
  intro owner stop hother
  obtain ⟨count, rfl⟩ := Nat.exists_eq_add_of_lt hother.forward
  rw [Nat.add_assoc] at hother ⊢
  have hle := (le_runLength_iff (Nat.succ_pos count)).mpr hother
  have hcovers : row.covers plan.source.medium owner := by
    apply hother.covers
    rw [Nat.add_sub_cancel_left, slice_succ hchosen.at_start]
    exact mem_cons_self
  have hlongest := hchosen.longest (owner, plan.runLength start row owner)
    (mem_candidates_iff.mpr ⟨hcovers, rfl, by omega⟩)
  dsimp only at hlongest ⊢
  omega

theorem isSome_nextSegment (route : RouteSelection) {row : ReplicaSet} {owner : CacheOwner}
    (hrow : plan.rows[start]? = some row) (hcovers : row.covers plan.source.medium owner)
    (hbytes : row.key.ns.utf8ByteSize + row.key.hash.length ≤ discoveryMaxBytes) :
    (plan.nextSegment route start).isSome := by
  have hslice : plan.slice start 1 = [row] := by
    rw [slice_succ hrow, slice, take_zero]
  have hfits : plan.OwnerFits row.key.ns.utf8ByteSize owner start (start + 1) := by
    have hlt := (List.getElem?_eq_some_iff.mp hrow).1
    refine ⟨by omega, hlt, ?_, ?_, ?_⟩ <;> rw [Nat.add_sub_cancel_left]
    · decide
    · simpa [hslice] using hbytes
    · simpa [hslice] using hcovers
  have hpos : 0 < plan.runLength start row owner := (le_runLength_iff Nat.one_pos).mpr hfits
  have hcandidate : (owner, plan.runLength start row owner) ∈ plan.candidates start row :=
    mem_candidates_iff.mpr ⟨hcovers, rfl, hpos⟩
  obtain ⟨choice, hchoice⟩ := Option.isSome_iff_exists.mp
    (isSome_selectedChoice route hrow (ne_nil_of_mem hcandidate))
  obtain ⟨row, hchosen⟩ := chosen_of_selectedChoice hchoice
  have hcovers := (owner_covers_slice hchosen.candidate).covers
  rw [Nat.add_sub_cancel_left] at hcovers
  obtain ⟨records, hrecords⟩ := Option.isSome_iff_exists.mp
    (isSome_mapM fun row hmem => isSome_record (hcovers row hmem))
  simp only [nextSegment, hchoice, hrecords, Option.bind_eq_bind, Option.bind_some,
    Option.pure_def, Option.isSome_some]

end FetchPlan

end OrbitKV
