import Mathlib
import OrbitKV.Lib.OrderedMap
import OrbitKV.Lib.Ring
import OrbitKV.Storage.SsdIndex

/-!
# The extents of the SSD ring

Every entry lies in the window of its shard, does not wrap, and is named by the FIFO order.
-/

namespace OrbitKV

open Std Function Option

variable {n : Nat}

def SsdIndexEntry.extent (entry : SsdIndexEntry n) : Set Nat :=
  Set.Ico entry.fileOffset (entry.fileOffset + entry.len)

def SsdIndexEntry.Overlaps (entry other : SsdIndexEntry n) : Prop :=
  entry.shardId = other.shardId ∧ ¬Disjoint entry.extent other.extent

namespace SsdRingBuffer

variable {ring ring' : SsdRingBuffer n} {entries : ExtTreeMap StateKey (SsdEntryState n)}
  {readers : Nat → Nat} {shardId : Fin n} {newTail : Nat} {key other : StateKey}
  {state state' : SsdEntryState n} {entry : SsdIndexEntry n}

structure Placed (shard : SsdShardRing) (key : StateKey) (entry : SsdIndexEntry n) : Prop where
  live : shard.tail ≤ entry.begin
  pos : 0 < entry.len
  below : entry.begin + entry.len ≤ shard.head
  fits : Ring.Fits shard.capacity entry.begin entry.len
  offset : entry.fileOffset = entry.begin % shard.capacity
  ordered : (key, entry.begin) ∈ shard.order

structure WellFormed (ring : SsdRingBuffer n) : Prop where
  bounded : ∀ shard, (ring.shards shard).tail ≤ (ring.shards shard).head
  window : ∀ shard, (ring.shards shard).head ≤ (ring.shards shard).tail + (ring.shards shard).capacity
  sorted : ∀ shard, (ring.shards shard).order.Pairwise fun a b => a.2 < b.2
  past : ∀ shard, ∀ pair ∈ (ring.shards shard).order, pair.2 < (ring.shards shard).head
  placed : ∀ (key : StateKey) (state : SsdEntryState n), ring.entries[key]? = some state →
    Placed (ring.shards state.entry.shardId) key state.entry
  apart : ∀ (key other : StateKey) (state state' : SsdEntryState n),
    ring.entries[key]? = some state → ring.entries[other]? = some state' → key ≠ other →
    state.entry.shardId = state'.entry.shardId →
    Ring.Apart state.entry.begin state.entry.len state'.entry.begin state'.entry.len

theorem wellFormed_newSharded [NeZero n] (shardCapacities : Fin n → Nat) (alignment : Nat) :
    (newSharded shardCapacities alignment).WellFormed := by
  constructor <;> simp [newSharded]

section

variable (hwf : ring.WellFormed)

include hwf

theorem WellFormed.not_overlaps (hstate : ring.entries[key]? = some state)
    (hstate' : ring.entries[other]? = some state') (hne : key ≠ other) :
    ¬state.entry.Overlaps state'.entry := by
  rintro ⟨hshard, hoverlap⟩
  have hplaced := hwf.placed key state hstate
  have hplaced' := hwf.placed other state' hstate'
  have hapart := hwf.apart key other state state' hstate hstate' hne hshard
  rw [← hshard] at hplaced'
  apply hoverlap
  rw [SsdIndexEntry.extent, SsdIndexEntry.extent, hplaced.offset, hplaced'.offset]
  rcases Ring.apart_mod (hwf.window _) hplaced.live hplaced.below hplaced.fits hplaced'.live
    hplaced'.below hplaced'.fits hapart with hle | hle
  · exact Set.Ico_disjoint_Ico.mpr (by omega)
  · exact Set.Ico_disjoint_Ico.mpr (by omega)

theorem WellFormed.extent_subset (hstate : ring.entries[key]? = some state) :
    state.entry.fileOffset + state.entry.len ≤ (ring.shards state.entry.shardId).capacity := by
  have hplaced := hwf.placed key state hstate
  rw [hplaced.offset]
  exact hplaced.fits

theorem WellFormed.isOffsetValid
    (hstate : ring.entries[key]? = some state) : ring.isOffsetValid state.entry = true :=
  decide_eq_true (hwf.placed key state hstate).live

theorem WellFormed.get_eq_some :
    ring.get key = some entry ↔ ring.entries[key]? = some (.committed entry) := by
  unfold get
  cases hstate : ring.entries[key]? with
  | none => simp
  | some state =>
    have hvalid := hwf.isOffsetValid hstate
    cases state with
    | writing => simp
    | invalid => simp
    | committed found =>
      dsimp only [SsdEntryState.entry] at hvalid
      simp [hvalid]

theorem WellFormed.withEntries
    (hold : ∀ (key : StateKey) (state : SsdEntryState n), entries[key]? = some state →
      ∃ old, ring.entries[key]? = some old ∧ old.entry = state.entry) :
    WellFormed { ring with entries := entries } :=
  { hwf with
    placed := fun key state hstate => by
      obtain ⟨old, hentry, heq⟩ := hold key state hstate
      rw [← heq]
      exact hwf.placed key old hentry
    apart := fun key other state state' hstate hstate' hne hshard => by
      obtain ⟨old, hentry, heq⟩ := hold key state hstate
      obtain ⟨old', hentry', heq'⟩ := hold other state' hstate'
      rw [← heq, ← heq'] at hshard ⊢
      exact hwf.apart key other old old' hentry hentry' hne hshard }

theorem WellFormed.withRetired (retired : List StateKey) :
    WellFormed { ring with retired := retired } :=
  ⟨hwf.bounded, hwf.window, hwf.sorted, hwf.past, hwf.placed, hwf.apart⟩

/-! ### Commits -/

theorem WellFormed.commit_of_writing
    (hwriting : ring.entries[key]? = some (.writing entry)) (success : Bool) :
    ring.commit key success = (success, { ring with
      entries :=
        if success then ring.entries.insert key (.committed entry) else ring.entries.erase key }) := by
  have hvalid : ring.isOffsetValid entry = true := hwf.isOffsetValid hwriting
  simp only [commit, hwriting, hvalid, Bool.not_true, Bool.false_eq_true, if_false]
  cases success <;> rfl

end

theorem commit_of_not_writing (hnot : ∀ entry, ring.entries[key]? ≠ some (.writing entry))
    (success : Bool) : (ring.commit key success).2 = ring := by
  unfold commit
  split
  case h_4 entry hwriting => exact absurd hwriting (hnot entry)
  all_goals rfl

/-! ### The FIFO order -/

theorem current_eq_some {generation : Nat} :
    current entries shardId key generation = some state ↔
      entries[key]? = some state ∧ state.entry.shardId = shardId ∧
        state.entry.begin = generation := by
  simp [current, filter_eq_some_iff]

theorem isSome_current {generation : Nat} :
    (current entries shardId key generation).isSome = true ↔
      ∃ state, entries[key]? = some state ∧ state.entry.shardId = shardId ∧
        state.entry.begin = generation := by
  rw [isSome_iff_exists]
  exact exists_congr fun state => current_eq_some

variable {order : List (StateKey × Nat)}

theorem unpinned_of_unpinnedBelow (hsorted : order.Pairwise fun a b => a.2 < b.2)
    (hscan : unpinnedBelow readers entries shardId newTail order = true)
    (hstate : entries[key]? = some state) (hshard : state.entry.shardId = shardId)
    (hmem : (key, state.entry.begin) ∈ order) (hbelow : state.entry.begin < newTail) :
    state.isWriting = false ∧ readers state.entry.readers = 0 := by
  induction order with
  | nil => cases hmem
  | cons pair order ih =>
    rw [List.pairwise_cons] at hsorted
    rw [unpinnedBelow] at hscan
    rcases List.mem_cons.mp hmem with rfl | hrest
    · rw [current_eq_some.mpr ⟨hstate, hshard, rfl⟩] at hscan
      dsimp only at hscan
      rw [if_neg (by omega)] at hscan
      split at hscan
      case isTrue => cases hscan
      case isFalse hunpinned => simpa using hunpinned
    · refine ih hsorted.2 ?_ hrest
      cases hcurrent : current entries shardId pair.1 pair.2 with
      | none =>
        rw [hcurrent] at hscan
        exact hscan
      | some first =>
        -- an earlier generation lies below the entry, so the scan has not stopped there
        have hbegin := (current_eq_some.mp hcurrent).2.2
        have hearlier := hsorted.1 _ hrest
        rw [hcurrent] at hscan
        dsimp only at hscan
        rw [if_neg (by dsimp only at hearlier; omega)] at hscan
        split at hscan
        · cases hscan
        · exact hscan

def expired (shardId : Fin n) (newTail : Nat) (state : SsdEntryState n) : Bool :=
  state.entry.shardId = shardId && state.entry.begin < newTail

structure Prunes (shardId : Fin n) (newTail : Nat) (order : List (StateKey × Nat))
    (entries : ExtTreeMap StateKey (SsdEntryState n)) (retired : List StateKey)
    (result : List (StateKey × Nat) × ExtTreeMap StateKey (SsdEntryState n) × List StateKey) :
    Prop where
  suffix : result.1 <:+ order
  remaining : ∀ key : StateKey, result.2.1[key]? = entries[key]?.filter (!expired shardId newTail ·)
  ordered : ∀ (key : StateKey) (state : SsdEntryState n), result.2.1[key]? = some state →
    state.entry.shardId = shardId → (key, state.entry.begin) ∈ result.1
  evicted : ∀ key : StateKey, key ∈ result.2.2 ↔
    key ∈ retired ∨ ∃ state, entries[key]? = some state ∧ expired shardId newTail state = true

theorem expired_eq_true :
    expired shardId newTail state = true ↔
      state.entry.shardId = shardId ∧ state.entry.begin < newTail := by
  simp [expired]

theorem Prunes.of_not_expired {retired : List StateKey}
    (hordered : ∀ (key : StateKey) (state : SsdEntryState n), entries[key]? = some state →
      state.entry.shardId = shardId → (key, state.entry.begin) ∈ order)
    (hlive : ∀ (key : StateKey) (state : SsdEntryState n), entries[key]? = some state →
      state.entry.shardId = shardId → newTail ≤ state.entry.begin) :
    Prunes shardId newTail order entries retired (order, entries, retired) := by
  have hexpired : ∀ (key : StateKey) (state : SsdEntryState n), entries[key]? = some state →
      ¬expired shardId newTail state = true := by
    intro key state hstate htrue
    obtain ⟨hshard, hlt⟩ := expired_eq_true.mp htrue
    exact absurd (hlive key state hstate hshard) (Nat.not_le.mpr hlt)
  refine ⟨List.suffix_rfl, fun key => ?_, hordered, fun key => ?_⟩
  · cases hstate : entries[key]? with
    | none => rfl
    | some state => simp [Option.filter, hexpired key state hstate]
  · refine ⟨Or.inl, ?_⟩
    rintro (hmem | ⟨state, hstate, htrue⟩)
    · exact hmem
    · exact absurd htrue (hexpired key state hstate)

theorem prunes_pruneOrder
    (hsorted : order.Pairwise fun a b => a.2 < b.2) (entries : ExtTreeMap StateKey (SsdEntryState n))
    (retired : List StateKey)
    (hordered : ∀ (key : StateKey) (state : SsdEntryState n), entries[key]? = some state →
      state.entry.shardId = shardId → (key, state.entry.begin) ∈ order) :
    Prunes shardId newTail order entries retired
      (pruneOrder shardId newTail order entries retired) := by
  induction order generalizing entries retired with
  | nil =>
    apply Prunes.of_not_expired hordered
    intro key state hstate hshard
    cases hordered key state hstate hshard
  | cons pair order ih =>
    rw [List.pairwise_cons] at hsorted
    rw [pruneOrder]
    by_cases hcurrent : (current entries shardId pair.1 pair.2).isSome = true
    · obtain ⟨first, hfirst, hshard, hbegin⟩ := isSome_current.mp hcurrent
      rw [if_pos hcurrent]
      by_cases hstop : newTail ≤ pair.2
      · rw [if_pos hstop]
        apply Prunes.of_not_expired hordered
        intro key state hstate hshard'
        rcases List.mem_cons.mp (hordered key state hstate hshard') with rfl | hrest
        · exact hstop
        · exact hstop.trans (hsorted.1 _ hrest).le
      · rw [if_neg hstop]
        have hexpired : expired shardId newTail first = true :=
          expired_eq_true.mpr ⟨hshard, by omega⟩
        have hrest := ih hsorted.2 (entries.erase pair.1) (retired ++ [pair.1]) <| by
          intro key state hstate hshard'
          obtain ⟨hne, hstate⟩ := getElem?_erase_eq_some hstate
          refine (List.mem_cons.mp (hordered key state hstate hshard')).resolve_left fun heq => ?_
          exact hne (congrArg Prod.fst heq).symm
        refine ⟨hrest.suffix.trans (List.suffix_cons _ _), fun key => ?_, hrest.ordered,
          fun key => ?_⟩
        · rw [hrest.remaining]
          by_cases heq : pair.1 = key
          · subst heq
            simp [hfirst, Option.filter, hexpired]
          · simp [ExtTreeMap.getElem?_erase, heq]
        · rw [hrest.evicted, List.mem_append, List.mem_singleton]
          by_cases heq : key = pair.1
          · subst heq
            simp [hfirst, hexpired]
          · simp [ExtTreeMap.getElem?_erase, heq, Ne.symm heq]
    · rw [if_neg hcurrent]
      have hrest := ih hsorted.2 entries retired <| by
        intro key state hstate hshard
        refine (List.mem_cons.mp (hordered key state hstate hshard)).resolve_left fun heq => ?_
        subst heq
        exact hcurrent (isSome_current.mpr ⟨state, hstate, hshard, rfl⟩)
      exact ⟨hrest.suffix.trans (List.suffix_cons _ _), hrest.remaining, hrest.ordered,
        hrest.evicted⟩

/-! ### Reservations -/

theorem beginOf_eq_some {shard : SsdShardRing} {size begin : Nat}
    (hsome : shard.beginOf size = some begin) :
    begin = Ring.place shard.capacity shard.head size := by
  unfold Ring.place
  dsimp only [SsdShardRing.beginOf] at hsome
  split at hsome
  case isTrue hskip =>
    rw [if_pos hskip]
    exact boundedAdd_eq_some hsome
  case isFalse hroom =>
    rw [if_neg hroom]
    exact (Option.some.inj hsome).symm

theorem allocateContiguous_eq_some {size begin fileOffset : Nat}
    (hsome : allocateContiguous readers ring shardId size = some (begin, fileOffset, ring')) :
    0 < size ∧ size ≤ (ring.shards shardId).capacity ∧
      begin = Ring.place (ring.shards shardId).capacity (ring.shards shardId).head size ∧
      fileOffset = begin % (ring.shards shardId).capacity ∧
      unpinnedBelow readers ring.entries shardId (begin + size - (ring.shards shardId).capacity)
        (ring.shards shardId).order = true ∧
      ring' = advanceTail
        { ring with
          shards := update ring.shards shardId
            { ring.shards shardId with head := begin + size } }
        shardId (begin + size - (ring.shards shardId).capacity) := by
  simp only [allocateContiguous, bind_eq_bind, bind_eq_some_iff, pure_def,
    guard_eq_some'] at hsome
  obtain ⟨_, hsize, begin, hbegin, head, hhead, _, hscan, hreturn⟩ := hsome
  obtain rfl := boundedAdd_eq_some hhead
  obtain ⟨rfl, rfl, rfl⟩ := by simpa only [Option.some.injEq, Prod.mk.injEq] using hreturn
  rw [not_or, Nat.not_lt] at hsize
  exact ⟨Nat.pos_of_ne_zero hsize.1, hsize.2, beginOf_eq_some hbegin, rfl, hscan, rfl⟩

structure Allocated (ring ring' : SsdRingBuffer n) (shardId : Fin n) (begin size : Nat) :
    Prop where
  others : ∀ shard, shard ≠ shardId → ring'.shards shard = ring.shards shard
  capacity : (ring'.shards shardId).capacity = (ring.shards shardId).capacity
  head : (ring'.shards shardId).head = begin + size
  tail : (ring'.shards shardId).tail =
    max (ring.shards shardId).tail (begin + size - (ring.shards shardId).capacity)
  prunes : Prunes shardId (ring'.shards shardId).tail (ring.shards shardId).order ring.entries
    ring.retired ((ring'.shards shardId).order, ring'.entries, ring'.retired)

theorem WellFormed.allocated (hwf : ring.WellFormed) (shardId : Fin n) (begin size : Nat) :
    Allocated ring
      (advanceTail
        { ring with
          shards := update ring.shards shardId
            { ring.shards shardId with head := begin + size } }
        shardId (begin + size - (ring.shards shardId).capacity)) shardId begin size := by
  have hordered : ∀ (key : StateKey) (state : SsdEntryState n), ring.entries[key]? = some state →
      state.entry.shardId = shardId → (key, state.entry.begin) ∈ (ring.shards shardId).order := by
    rintro key state hstate rfl
    exact (hwf.placed key state hstate).ordered
  unfold advanceTail
  simp only [update_self]
  split
  case isTrue hle =>
    refine ⟨fun shard hne => update_of_ne hne _ _, ?_, ?_, ?_, ?_⟩
    all_goals simp only [update_self]
    · exact (max_eq_left hle).symm
    · apply Prunes.of_not_expired hordered
      rintro key state hstate rfl
      exact (hwf.placed key state hstate).live
  case isFalse hgt =>
    refine ⟨fun shard hne => ?_, ?_, ?_, ?_, ?_⟩
    · simp only [update_of_ne hne]
    all_goals simp only [update_self]
    · exact (max_eq_right (Nat.le_of_not_le hgt)).symm
    · exact prunes_pruneOrder (hwf.sorted shardId) ring.entries ring.retired hordered

structure Reserved (readers : Nat → Nat) (ring ring' : SsdRingBuffer n) (key : StateKey)
    (entry : SsdIndexEntry n) : Prop where
  wellFormed : ring'.WellFormed
  absent : ring.entries[key]? = none
  fresh : (ring.shards entry.shardId).head ≤ entry.begin
  heads : ∀ shard, (ring.shards shard).head ≤ (ring'.shards shard).head
  self : ring'.entries[key]? = some (.writing entry)
  others : ∀ other, other ≠ key → ring'.entries[other]? =
    ring.entries[other]?.filter (!expired entry.shardId (ring'.shards entry.shardId).tail ·)
  unpinned : ∀ (other : StateKey) (state : SsdEntryState n), ring.entries[other]? = some state →
    expired entry.shardId (ring'.shards entry.shardId).tail state = true →
    state.isWriting = false ∧ readers state.entry.readers = 0
  evicted : ∀ other : StateKey, other ∈ ring'.retired ↔ other ∈ ring.retired ∨
    ∃ state, ring.entries[other]? = some state ∧
      expired entry.shardId (ring'.shards entry.shardId).tail state = true

section Insertion

variable {begin size : Nat}

def fileEntry (ring : SsdRingBuffer n) (key : StateKey) (entry : SsdIndexEntry n)
    (nextShard : Fin n) : SsdRingBuffer n :=
  { ring with
    nextShard := nextShard
    entries := ring.entries.insert key (.writing entry)
    shards := update ring.shards entry.shardId
      { ring.shards entry.shardId with
        order := (ring.shards entry.shardId).order ++ [(key, entry.begin)] } }

theorem fileEntry_shards_self (nextShard : Fin n) :
    (ring.fileEntry key entry nextShard).shards entry.shardId =
      { ring.shards entry.shardId with
        order := (ring.shards entry.shardId).order ++ [(key, entry.begin)] } :=
  update_self ..

theorem fileEntry_shards_of_ne (nextShard : Fin n) {shard : Fin n} (hne : shard ≠ entry.shardId) :
    (ring.fileEntry key entry nextShard).shards shard = ring.shards shard :=
  update_of_ne hne _ _

theorem fileEntry_ends (nextShard shard : Fin n) :
    ((ring.fileEntry key entry nextShard).shards shard).head = (ring.shards shard).head ∧
      ((ring.fileEntry key entry nextShard).shards shard).tail = (ring.shards shard).tail := by
  by_cases hshard : shard = entry.shardId
  · rw [hshard, fileEntry_shards_self]
    exact ⟨rfl, rfl⟩
  · rw [fileEntry_shards_of_ne nextShard hshard]
    exact ⟨rfl, rfl⟩

theorem Allocated.survivor (hwf : ring.WellFormed) (halloc : Allocated ring ring' shardId begin size)
    (hhead : (ring.shards shardId).head ≤ begin) (hstate : ring'.entries[key]? = some state) :
    ring.entries[key]? = some state ∧ Placed (ring'.shards state.entry.shardId) key state.entry := by
  have hremaining := halloc.prunes.remaining key
  rw [hstate, eq_comm, filter_eq_some_iff] at hremaining
  obtain ⟨hold, hlive⟩ := hremaining
  have hplaced := hwf.placed key state hold
  refine ⟨hold, ?_⟩
  by_cases hshard : state.entry.shardId = shardId
  · subst hshard
    have hlive' : (ring'.shards state.entry.shardId).tail ≤ state.entry.begin := by
      simpa [expired] using hlive
    have hbelow := hplaced.below
    refine ⟨hlive', hplaced.pos, ?_, ?_, ?_, halloc.prunes.ordered key state hstate rfl⟩
    · rw [halloc.head]
      omega
    · rw [halloc.capacity]
      exact hplaced.fits
    · rw [halloc.capacity]
      exact hplaced.offset
  · rw [halloc.others _ hshard]
    exact hplaced

theorem Allocated.wellFormed_fileEntry (hwf : ring.WellFormed)
    (halloc : Allocated ring ring' entry.shardId entry.begin entry.len)
    (hhead : (ring.shards entry.shardId).head ≤ entry.begin) (hpos : 0 < entry.len)
    (hle : entry.len ≤ (ring.shards entry.shardId).capacity)
    (hfits : Ring.Fits (ring.shards entry.shardId).capacity entry.begin entry.len)
    (hoffset : entry.fileOffset = entry.begin % (ring.shards entry.shardId).capacity)
    (nextShard : Fin n) : (ring'.fileEntry key entry nextShard).WellFormed := by
  have hself : (ring'.fileEntry key entry nextShard).shards entry.shardId = _ :=
    fileEntry_shards_self nextShard
  have hbounded := hwf.bounded entry.shardId
  have hpast : ∀ pair ∈ (ring'.shards entry.shardId).order, pair.2 < entry.begin := by
    intro pair hpair
    exact (hwf.past _ pair (halloc.prunes.suffix.mem hpair)).trans_le hhead
  have hnew : Placed ((ring'.fileEntry key entry nextShard).shards entry.shardId) key entry := by
    rw [hself]
    refine ⟨?_, hpos, halloc.head.ge, ?_, ?_, List.mem_append_right _ List.mem_cons_self⟩
    · change (ring'.shards entry.shardId).tail ≤ entry.begin
      rw [halloc.tail]
      omega
    · change Ring.Fits (ring'.shards entry.shardId).capacity _ _
      rw [halloc.capacity]
      exact hfits
    · change entry.fileOffset = entry.begin % (ring'.shards entry.shardId).capacity
      rw [halloc.capacity]
      exact hoffset
  have hold : ∀ (other : StateKey) (state : SsdEntryState n), ring'.entries[other]? = some state →
      Placed ((ring'.fileEntry key entry nextShard).shards state.entry.shardId) other
        state.entry := by
    intro other state hstate
    obtain ⟨-, hplaced⟩ := halloc.survivor hwf hhead hstate
    by_cases hshard : state.entry.shardId = entry.shardId
    · rw [hshard] at hplaced ⊢
      rw [hself]
      exact ⟨hplaced.live, hplaced.pos, hplaced.below, hplaced.fits, hplaced.offset,
        List.mem_append_left _ hplaced.ordered⟩
    · rw [fileEntry_shards_of_ne nextShard hshard]
      exact hplaced
  have hbefore : ∀ (other : StateKey) (state : SsdEntryState n), ring'.entries[other]? = some state →
      state.entry.shardId = entry.shardId →
      state.entry.begin + state.entry.len ≤ entry.begin := by
    intro other state hstate hshard
    have hbelow := (hwf.placed other state (halloc.survivor hwf hhead hstate).1).below
    rw [hshard] at hbelow
    exact hbelow.trans hhead
  -- the other shards are as they were
  have hshards : ∀ p : SsdShardRing → Prop, (∀ shard, p (ring.shards shard)) →
      p ((ring'.fileEntry key entry nextShard).shards entry.shardId) →
      ∀ shard, p ((ring'.fileEntry key entry nextShard).shards shard) := by
    intro p hothers hself shard
    by_cases hshard : shard = entry.shardId
    · rw [hshard]
      exact hself
    · rw [fileEntry_shards_of_ne nextShard hshard, halloc.others shard hshard]
      exact hothers shard
  constructor
  case bounded =>
    apply hshards (fun shard => shard.tail ≤ shard.head) hwf.bounded
    exact (hnew.live.trans (Nat.le_add_right _ _)).trans hnew.below
  case window =>
    apply hshards (fun shard => shard.head ≤ shard.tail + shard.capacity) hwf.window
    simp only [hself, halloc.head, halloc.tail, halloc.capacity]
    omega
  case sorted =>
    apply hshards (fun shard => shard.order.Pairwise fun a b => a.2 < b.2) hwf.sorted
    rw [hself]
    refine List.pairwise_append.mpr
      ⟨?_, List.pairwise_singleton _ _, fun pair hpair last hlast => ?_⟩
    · exact (hwf.sorted entry.shardId).sublist halloc.prunes.suffix.sublist
    · obtain rfl := List.mem_singleton.mp hlast
      exact hpast pair hpair
  case past =>
    apply hshards (fun shard => ∀ pair ∈ shard.order, pair.2 < shard.head) hwf.past
    have hbelow := hnew.below
    rw [hself] at hbelow ⊢
    refine List.forall_mem_append.mpr ⟨fun pair hpair => ?_, List.forall_mem_singleton.mpr ?_⟩
    · have hlt := hpast pair hpair
      omega
    · exact (Nat.lt_add_of_pos_right hpos).trans_le hbelow
  case placed =>
    intro other state hstate
    rcases getElem?_insert_eq_some hstate with ⟨rfl, rfl⟩ | ⟨-, hstate⟩
    · exact hnew
    · exact hold other state hstate
  case apart =>
    intro first second state state' hstate hstate' hne hshard
    rcases getElem?_insert_eq_some hstate with ⟨rfl, rfl⟩ | ⟨-, hstate⟩
    · rcases getElem?_insert_eq_some hstate' with ⟨rfl, rfl⟩ | ⟨-, hstate'⟩
      · exact absurd rfl hne
      · exact .inr (hbefore second state' hstate' hshard.symm)
    · rcases getElem?_insert_eq_some hstate' with ⟨rfl, rfl⟩ | ⟨-, hstate'⟩
      · exact .inl (hbefore first state hstate hshard)
      · exact hwf.apart first second state state' (halloc.survivor hwf hhead hstate).1
          (halloc.survivor hwf hhead hstate').1 hne hshard

end Insertion

/-- **Reservation.** A reservation keeps the ring well formed, takes a fresh range, and evicts only
what is neither written nor read. -/
theorem reserved_of_reserve [NeZero n] (hwf : ring.WellFormed) {cell : Nat} {slots : List SlotMeta}
    {encoding : Encoding}
    (hreserve : ring.reserve readers cell key slots encoding = some (entry, ring')) :
    Reserved readers ring ring' key entry ∧ entry.readers = cell := by
  simp only [reserve, bind_eq_bind, bind_eq_some_iff, pure_def,
    guard_eq_some'] at hreserve
  obtain ⟨_, habsent, payload, -, size, -, ⟨shardId, begin, fileOffset, middle⟩, hfind, hreturn⟩ :=
    hreserve
  obtain ⟨offset, -, hmap⟩ := List.exists_of_findSome?_eq_some hfind
  obtain ⟨⟨begin', fileOffset', middle'⟩, halloc, htuple⟩ := Option.map_eq_some_iff.mp hmap
  obtain ⟨rfl, rfl, rfl, rfl⟩ := by simpa only [Prod.mk.injEq] using htuple
  obtain ⟨hentry, hring⟩ := by simpa only [Option.some.injEq, Prod.mk.injEq] using hreturn
  obtain ⟨hpos, hle, hbegin, hoffset, hscan, hmiddle⟩ := allocateContiguous_eq_some halloc
  generalize ring.nextShard + Fin.ofNat n offset = shardId at *
  subst hentry
  have hfiled : middle'.fileEntry key ⟨shardId, begin', size, fileOffset', slots, encoding, cell⟩
      (shardId + 1) = ring' := hring
  have hallocated : Allocated ring middle' shardId begin' size := by
    rw [hmiddle]
    exact hwf.allocated shardId begin' size
  have hhead : (ring.shards shardId).head ≤ begin' := hbegin ▸ Ring.le_place _ _ _
  have hnone : ring.entries[key]? = none := by
    simpa using habsent
  rw [← hfiled]
  refine ⟨⟨?_, hnone, hhead, fun shard => ?_, ExtTreeMap.getElem?_insert_self, fun other hne => ?_,
    fun other state hstate hexpired => ?_, fun other => ?_⟩, rfl⟩
  · exact hallocated.wellFormed_fileEntry hwf hhead hpos hle (hbegin ▸ Ring.fits_place hpos hle)
      hoffset _
  · rw [(fileEntry_ends _ _).1]
    by_cases hshard : shard = shardId
    · rw [hshard, hallocated.head]
      exact hhead.trans (Nat.le_add_right _ _)
    · rw [hallocated.others shard hshard]
  · rw [(fileEntry_ends _ _).2, ← hallocated.prunes.remaining other]
    exact getElem?_insert_of_ne hne.symm
  · rw [(fileEntry_ends _ _).2] at hexpired
    obtain ⟨hshard, hlt⟩ := expired_eq_true.mp hexpired
    dsimp only at hshard hlt
    have hplaced := hwf.placed other state hstate
    rw [hshard] at hplaced
    -- an entry is never behind the old tail, so it is the new one that has passed it
    rw [hallocated.tail, lt_max_iff] at hlt
    exact unpinned_of_unpinnedBelow (hwf.sorted shardId) hscan hstate hshard hplaced.ordered
      (hlt.resolve_left (Nat.not_lt.mpr hplaced.live))
  · rw [(fileEntry_ends _ _).2]
    exact hallocated.prunes.evicted other

theorem Reserved.kept (hreserved : Reserved readers ring ring' key entry)
    (hstate : ring.entries[other]? = some state)
    (hpinned : state.isWriting = true ∨ 0 < readers state.entry.readers) :
    other ≠ key ∧ ring'.entries[other]? = some state := by
  have hne : other ≠ key := by
    rintro rfl
    rw [hreserved.absent] at hstate
    cases hstate
  refine ⟨hne, ?_⟩
  rw [hreserved.others other hne, hstate, filter_eq_some_iff]
  refine ⟨rfl, ?_⟩
  by_contra hexpired
  obtain ⟨hnot, hzero⟩ := hreserved.unpinned other state hstate (by simpa using hexpired)
  rcases hpinned with hwriting | hpos
  · rw [hnot] at hwriting
    cases hwriting
  · omega

theorem Reserved.eq_of_getElem? (hreserved : Reserved readers ring ring' key entry)
    (hstate : ring'.entries[other]? = some state) :
    other ≠ key ∧ ring.entries[other]? = some state ∨ other = key ∧ state = .writing entry := by
  by_cases heq : other = key
  · rw [heq, hreserved.self, Option.some.injEq] at hstate
    exact .inr ⟨heq, hstate.symm⟩
  · rw [hreserved.others other heq, filter_eq_some_iff] at hstate
    exact .inl ⟨heq, hstate.1⟩

/-- No entry of the shard is being written or read. -/
def Idle (readers : Nat → Nat) (ring : SsdRingBuffer n) (shardId : Fin n) : Prop :=
  ∀ (key : StateKey) (state : SsdEntryState n), ring.entries[key]? = some state →
    state.entry.shardId = shardId → state.isWriting = false ∧ readers state.entry.readers = 0

theorem Idle.unpinnedBelow (hidle : ring.Idle readers shardId) (order : List (StateKey × Nat)) :
    unpinnedBelow readers ring.entries shardId newTail order = true := by
  induction order with
  | nil => rfl
  | cons pair order ih =>
    rw [SsdRingBuffer.unpinnedBelow]
    cases hcurrent : current ring.entries shardId pair.1 pair.2 with
    | none => exact ih
    | some state =>
      obtain ⟨hstate, hshard, -⟩ := current_eq_some.mp hcurrent
      obtain ⟨hwriting, hreaders⟩ := hidle pair.1 state hstate hshard
      simp [hwriting, hreaders, ih]

theorem Idle.allocateContiguous_isSome {size : Nat} (hidle : ring.Idle readers shardId)
    (hpos : size ≠ 0) (hfits : size ≤ (ring.shards shardId).capacity)
    (hbound : (ring.shards shardId).head + 2 * (ring.shards shardId).capacity < u64Bound) :
    (allocateContiguous readers ring shardId size).isSome = true := by
  obtain ⟨begin, hbegin, hle⟩ : ∃ begin, (ring.shards shardId).beginOf size = some begin ∧
      begin ≤ (ring.shards shardId).head + (ring.shards shardId).capacity := by
    dsimp only [SsdShardRing.beginOf, boundedAdd]
    split
    · exact ⟨_, if_pos (by omega), by omega⟩
    · exact ⟨_, rfl, Nat.le_add_right _ _⟩
  have hhead : boundedAdd begin size = some (begin + size) := if_pos (by omega)
  simp [allocateContiguous, hpos, hfits, hbegin, hhead, hidle.unpinnedBelow]

/-- **Room for a write**: a reservation of a new key succeeds if some shard is long enough and none
of its entries is being written or read, whatever it holds. -/
theorem reserve_of_idle [NeZero n] {slots : List SlotMeta} {payload size : Nat}
    (hnew : key ∉ ring.entries) (hpayload : payloadBytes slots = some payload)
    (hsize : checkedNextMultipleOf payload ring.alignment = some size) (hpos : size ≠ 0)
    (hidle : ring.Idle readers shardId) (hfits : size ≤ (ring.shards shardId).capacity)
    (hbound : (ring.shards shardId).head + 2 * (ring.shards shardId).capacity < u64Bound)
    (cell : Nat) (encoding : Encoding) :
    (ring.reserve readers cell key slots encoding).isSome = true := by
  have hturn : ring.nextShard + Fin.ofNat n (shardId - ring.nextShard).val = shardId := by
    simp
  have hsome := hidle.allocateContiguous_isSome hpos hfits hbound
  rw [← hturn] at hsome
  have hrange : (shardId - ring.nextShard).val ∈ List.range n := List.mem_range.mpr (Fin.isLt _)
  -- the search tries every shard
  cases hfail : ring.reserve readers cell key slots encoding with
  | some reserved => rfl
  | none =>
    simp only [reserve, bind_eq_bind, bind_eq_none_iff, hpayload] at hfail
    have hreturn := hfail () (by simp [hnew]) payload rfl size hsize
    have hnone := Option.eq_none_iff_forall_ne_some.mpr fun found hfound =>
      some_ne_none _ (hreturn found hfound)
    rw [Option.map_eq_none_iff.mp (List.findSome?_eq_none_iff.mp hnone _ hrange)] at hsome
    cases hsome

/-- The ring is full, and the reservation evicts what fills it. -/
theorem reserve_of_idle_full :
    let entries : ExtTreeMap StateKey (SsdEntryState 1) := ∅
    let full : SsdRingBuffer 1 := ⟨fun _ => ⟨8, 8, 0, [(⟨"n", []⟩, 0)]⟩, 0, 4,
      entries.insert ⟨"n", []⟩ (.committed ⟨0, 0, 8, 0, [], .raw, 0⟩), []⟩
    (full.reserve (fun _ => 0) 1 ⟨"m", []⟩ [.new [3]] .raw).isSome = true := by
  intro entries full
  have hidle : full.Idle (fun _ => 0) 0 := by
    intro key state hstate _
    rcases getElem?_insert_eq_some hstate with ⟨-, rfl⟩ | ⟨-, hempty⟩
    · exact ⟨rfl, rfl⟩
    · simp [entries] at hempty
  exact reserve_of_idle (by decide +kernel) (rfl : payloadBytes _ = some 3)
    (rfl : checkedNextMultipleOf 3 4 = some 4) (by decide) hidle (by decide) (by decide) 1 .raw

end SsdRingBuffer

end OrbitKV
