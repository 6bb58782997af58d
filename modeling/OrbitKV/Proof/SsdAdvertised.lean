import OrbitKV.Proof.Advertised
import OrbitKV.Proof.SsdSafety

/-!
# Advertised and stored SSD objects

Notifications for two operations on one key may arrive in the other order. The inventory agrees with
the ring if no operation changes a key that still has a notification under way.
-/

namespace OrbitKV

open Std SsdSystem List

open SsdRingBuffer (Reserved expired)

variable {n : Nat} {L : Type → Type}

namespace SsdSystem

variable {s t : SsdSystem n L} {key : StateKey}
  {ring : SsdRingBuffer n} {medium : ReplicaMedium} {notices rest : List Notice} {notice : Notice}
  {operation : Nat}

def Settled (s : SsdSystem n L) (key : StateKey) : Prop :=
  ∀ notices ∈ s.inFlight, ∀ notice ∈ notices, notice.key ≠ key

theorem settled_of_quiet (hquiet : s.inFlight = []) : s.Settled key := by
  intro notices hnotices
  rw [hquiet] at hnotices
  cases hnotices

def KeepsOrder (s t : SsdSystem n L) : Prop :=
  ∀ key, s.inner.ring.get key ≠ t.inner.ring.get key → s.Settled key

structure Announces (s t : SsdSystem n L) (notices : List Notice) : Prop where
  inFlight : t.inFlight = if notices.isEmpty then s.inFlight else s.inFlight ++ [notices]
  inventory : t.inventory = s.inventory
  truthful : ∀ notice ∈ notices, notice.metadata.isSome = (t.inner.ring.get notice.key).isSome
  complete : ∀ key, s.inner.ring.get key ≠ t.inner.ring.get key →
    ∃ notice ∈ notices, notice.key = key

theorem announces_silent (hflight : t.inFlight = s.inFlight) (hinventory : t.inventory = s.inventory)
    (hget : ∀ key, s.inner.ring.get key = t.inner.ring.get key) : Announces s t [] :=
  ⟨hflight, hinventory, nofun, fun key hne => absurd (hget key) hne⟩

theorem get_congr {ring' : SsdRingBuffer n} (hwf : ring.WellFormed) (hwf' : ring'.WellFormed)
    (hentries : ∀ entry, ring.entries[key]? = some (.committed entry) ↔
      ring'.entries[key]? = some (.committed entry)) : ring.get key = ring'.get key := by
  refine Option.ext fun entry => ?_
  rw [hwf.get_eq_some, hwf'.get_eq_some]
  exact hentries entry

theorem get_eq_none (hwf : ring.WellFormed)
    (hentries : ∀ entry, ring.entries[key]? ≠ some (.committed entry)) : ring.get key = none := by
  refine Option.eq_none_iff_forall_ne_some.mpr fun entry hget => ?_
  exact hentries entry (hwf.get_eq_some.mp hget)

@[simp] theorem leave_inventory (notices : List Notice) :
    (s.leave notices).inventory = s.inventory := by
  unfold leave
  split <;> rfl

theorem leave_inFlight (notices : List Notice) : (s.leave notices).inFlight =
    if notices.isEmpty then s.inFlight else s.inFlight ++ [notices] := by
  unfold leave
  split <;> rfl

variable {metadata : Option ReplicaMetadata}

/-! ### What each step announces -/

theorem Consistent.announces_reserved (hs : s.Consistent) {entry : SsdIndexEntry n}
    (hreserved : Reserved s.readers s.inner.ring ring key entry)
    (pending : ExtTreeSet StateKey) (history : L Unit) (jobs : List (WriteJob n)) :
    Announces s (s.reservedState ring pending history jobs key entry)
      (retireNotices ring.retired) := by
  have hwf' := hreserved.wellFormed.withRetired []
  have hring : (s.reservedState ring pending history jobs key entry).inner.ring =
      { ring with retired := [] } := by
    rw [reservedState, leave_inner]
    rfl
  refine ⟨leave_inFlight _, leave_inventory _, ?_, ?_⟩
  · intro notice hnotice
    obtain ⟨other, hretired, rfl⟩ := List.mem_map.mp hnotice
    rw [hreserved.evicted, hs.drained] at hretired
    obtain ⟨state, hstate, hexpired⟩ := hretired.resolve_left not_mem_nil
    have hne : other ≠ key := by
      rintro rfl
      rw [hreserved.absent] at hstate
      cases hstate
    have hgone : ring.entries[other]? = none := by
      rw [hreserved.others other hne, hstate]
      simp [hexpired]
    rw [hring, get_eq_none hwf' fun found hfound => ?_]
    · rfl
    · rw [hgone] at hfound
      cases hfound
  · intro other hchanged
    by_contra hsilent
    apply hchanged
    rw [hring]
    apply get_congr hs.wellFormed hwf'
    intro found
    by_cases heq : other = key
    · rw [heq, hreserved.absent, hreserved.self]
      simp
    · rw [hreserved.others other heq]
      cases hstate : s.inner.ring.entries[other]? with
      | none => simp
      | some state =>
        have hlive : expired entry.shardId (ring.shards entry.shardId).tail state = false := by
          rw [Bool.eq_false_iff]
          intro hexpired
          have hretired := (hreserved.evicted other).mpr (.inr ⟨state, hstate, hexpired⟩)
          exact hsilent ⟨⟨other, none⟩, mem_map_of_mem hretired, rfl⟩
        rw [Option.filter_some, hlive]
        rfl

theorem Consistent.announces_one (hs : s.Consistent) (key : StateKey) {u : SsdSystem n L}
    (hu : (u.leave notices).Consistent) (hflight : u.inFlight = s.inFlight)
    (hinventory : u.inventory = s.inventory)
    (hother : ∀ other, other ≠ key → u.inner.ring.entries[other]? = s.inner.ring.entries[other]?)
    (htruthful : ∀ notice ∈ notices, notice.key = key ∧
      notice.metadata.isSome = (u.inner.ring.get key).isSome)
    (hcomplete : notices = [] → s.inner.ring.get key = u.inner.ring.get key) :
    Announces s (u.leave notices) notices := by
  have hwf := hu.wellFormed
  rw [leave_inner] at hwf
  refine ⟨?_, ?_, ?_, ?_⟩
  · rw [leave_inFlight, hflight]
  · rw [leave_inventory, hinventory]
  · intro notice hnotice
    obtain ⟨hkey, hsome⟩ := htruthful notice hnotice
    rw [leave_inner, hkey, hsome]
  · intro other hchanged
    rw [leave_inner] at hchanged
    obtain rfl : other = key := by
      by_contra hne
      apply hchanged
      refine get_congr hs.wellFormed hwf fun found => ?_
      rw [hother other hne]
    cases notices with
    | nil => exact absurd (hcomplete rfl) hchanged
    | cons notice rest => exact ⟨notice, mem_cons_self, (htruthful _ mem_cons_self).1⟩

theorem Consistent.announces_invalidate (hs : s.Consistent) (failed : SsdReadLease n)
    (ht : (s.invalidateEncodedEntry failed).Consistent) :
    ∃ notices, Announces s (s.invalidateEncodedEntry failed) notices := by
  unfold SsdSystem.invalidateEncodedEntry at ht ⊢
  rcases invalidateEncoded_cases s.readers s.inner.ring failed.key failed.entry with
    ⟨state, -, -, -, -, hresult⟩ | ⟨hresult, -⟩
  · rw [hresult] at ht ⊢
    have hwf := ht.wellFormed
    rw [leave_inner] at hwf
    refine ⟨_, hs.announces_one failed.key ht rfl rfl (fun other hne => ?_) ?_ nofun⟩
    · dsimp only [withRing]
      split
      · simp [ExtTreeMap.getElem?_erase, hne.symm]
      · exact getElem?_insert_of_ne hne.symm
    · intro notice hnotice
      rw [List.mem_singleton.mp hnotice]
      refine ⟨rfl, ?_⟩
      rw [get_eq_none hwf fun found hfound => ?_]
      · rfl
      · dsimp only [withRing] at hfound
        split at hfound
        · simp at hfound
        · simp at hfound
  · rw [hresult] at ht ⊢
    exact ⟨_, hs.announces_one failed.key ht rfl rfl (fun _ _ => rfl) nofun fun _ => rfl⟩

theorem mem_advertiseNotices :
    notice ∈ advertiseNotices key metadata ↔ metadata.isSome = true ∧ notice = ⟨key, metadata⟩ := by
  unfold advertiseNotices
  split
  case isTrue hsome => simp [hsome]
  case isFalse hnone => simp [hnone]

theorem announces_pin (candidate : SsdReadLease n) : Announces s (s.pin candidate) [] := by
  unfold pin
  split
  · exact announces_silent rfl rfl fun _ => rfl
  · split <;> exact announces_silent rfl rfl fun _ => rfl

theorem announces_foldl_acquire (leases : List (SsdReadLease n)) :
    Announces s (leases.foldl acquire s) [] := by
  have hkept : (leases.foldl acquire s).inner = s.inner ∧
      (leases.foldl acquire s).inFlight = s.inFlight ∧
      (leases.foldl acquire s).inventory = s.inventory := by
    induction leases generalizing s with
    | nil => exact ⟨rfl, rfl, rfl⟩
    | cons lease leases ih => exact ih
  exact announces_silent hkept.2.1 hkept.2.2 fun _ => by rw [hkept.1]

theorem announces_pinResidencies (records : List InventoryRecord) (validated : Bool) :
    Announces s (s.pinResidencies records validated) [] := by
  unfold pinResidencies
  split
  · exact announces_silent rfl rfl fun _ => rfl
  split
  · exact announces_silent rfl rfl fun _ => rfl
  · exact announces_foldl_acquire _

variable [LruMap StateKey L] [NeZero n]

theorem Consistent.announces_commit (hs : s.Consistent) {position : Nat} {success : Bool}
    (hnext : s.next (.commitWrite position success) = some t) :
    ∃ notices, Announces s t notices := by
  have ht := hs.next hnext
  obtain ⟨job, hjob, ⟨entry, hentry, hwriting, rfl⟩ | ⟨hentry, metadata, hreadable, -, rfl⟩⟩ :=
    commitWrite_cases hs hnext
  · have hwf := ht.wellFormed
    rw [leave_inner] at hwf
    have hbefore : s.inner.ring.get job.key = none := by
      refine get_eq_none hs.wellFormed fun found hfound => ?_
      rw [hwriting] at hfound
      cases hfound
    refine ⟨_, hs.announces_one job.key ht rfl rfl (fun other hne => ?_) ?_ ?_⟩
    · cases success
      · simp [ExtTreeMap.getElem?_erase, hne.symm]
      · exact getElem?_insert_of_ne hne.symm
    · intro notice hnotice
      obtain ⟨hsome, rfl⟩ := mem_advertiseNotices.mp hnotice
      cases success
      · cases hsome
      · refine ⟨rfl, ?_⟩
        rw [hwf.get_eq_some.mpr ExtTreeMap.getElem?_insert_self]
        rfl
    · intro hnil
      cases success
      · rw [hbefore, get_eq_none hwf fun found hfound => ?_]
        simp at hfound
      · cases hnil
  · refine ⟨_, hs.announces_one job.key ht rfl rfl (fun _ _ => rfl) ?_ fun _ => rfl⟩
    intro notice hnotice
    obtain ⟨hsome, rfl⟩ := mem_advertiseNotices.mp hnotice
    exact ⟨rfl, hsome.trans (hreadable hsome).symm⟩

theorem Consistent.announces_release (hs : s.Consistent) {position : Nat}
    (hnext : s.next (.releaseInvalid position) = some t) : Announces s t [] := by
  have ht := hs.next hnext
  obtain ⟨released, -, rfl⟩ := Option.map_eq_some_iff.mp hnext
  refine announces_silent rfl rfl fun key => get_congr hs.wellFormed ht.wellFormed fun found => ?_
  dsimp only [withRing, SsdRingBuffer.releaseInvalid]
  split
  case h_2 => rfl
  case h_1 invalid hstate =>
    split
    case isFalse => rfl
    case isTrue =>
      -- the entry that is removed was already unreadable
      by_cases heq : released.key = key
      · rw [← heq, hstate]
        simp
      · simp [ExtTreeMap.getElem?_erase, heq]

/-- **Announcements.** Every step but the calls of the inventory leaves the lock with notifications
that are true at that moment and cover every key whose readability it has changed. -/
theorem Consistent.announces (hs : s.Consistent) {step : SsdStep n} (hnext : s.next step = some t) :
    (∃ notices, Announces s t notices) ∨ (∃ operation, step = .notify operation) ∨
      ∃ key metadata, step = .changeDram key metadata := by
  cases step with
  | ingestBatch blocks reused permit =>
    obtain ⟨sent, history, pending, hingest, -⟩ :=
      ingestBatch_cases s.inner s.writePolicy blocks reused permit
    simp only [SsdSystem.next, hingest, Option.some.injEq] at hnext
    rw [← hnext]
    exact .inl ⟨[], announces_silent rfl rfl fun _ => rfl⟩
  | dequeue job live =>
    rw [SsdSystem.next] at hnext
    split at hnext
    case h_2 => cases hnext
    case h_1 =>
      refine .inl ⟨[], ?_⟩
      cases live <;> rw [← Option.some.inj hnext] <;> exact announces_silent rfl rfl fun _ => rfl
  | executeWrite job =>
    obtain ⟨key, block, -, rfl | ⟨entry, ring, hreserved, -, rfl⟩⟩ := executeWrite_cases hs hnext
    · exact .inl ⟨[], announces_silent rfl rfl fun _ => rfl⟩
    · exact .inl ⟨_, hs.announces_reserved hreserved _ _ _⟩
  | commitWrite job success => exact .inl (hs.announces_commit hnext)
  | reserveGpu key slots available =>
    obtain ⟨history, rfl⟩ | ⟨-, entry, ring, history, hreserved, -, rfl⟩ :=
      reserveGpu_cases hs hnext
    · exact .inl ⟨[], announces_silent rfl rfl fun _ => rfl⟩
    · exact .inl ⟨_, hs.announces_reserved hreserved _ _ _⟩
  | pin candidate =>
    rw [← Option.some.inj hnext]
    exact .inl ⟨[], announces_pin candidate⟩
  | pinResidencies records validated =>
    rw [← Option.some.inj hnext]
    exact .inl ⟨[], announces_pinResidencies records validated⟩
  | dropLease lease =>
    obtain ⟨dropped, -, rfl⟩ := Option.map_eq_some_iff.mp hnext
    exact .inl ⟨[], announces_silent rfl rfl fun _ => rfl⟩
  | releaseInvalid release => exact .inl ⟨[], hs.announces_release hnext⟩
  | invalidateEncodedEntry failed =>
    have ht := hs.next hnext
    rw [SsdSystem.next] at hnext
    split at hnext
    case isFalse => cases hnext
    case isTrue =>
      rw [← Option.some.inj hnext] at ht ⊢
      exact .inl (hs.announces_invalidate failed ht)
  | notify operation => exact .inr (.inl ⟨operation, rfl⟩)
  | changeDram key metadata => exact .inr (.inr ⟨key, metadata, rfl⟩)

/-! ### Agreement -/

/-- What is advertised of a settled key, and what is under way about the others, is what the ring
holds. -/
structure Agrees (s : SsdSystem n L) : Prop where
  described : ∀ inventory ∈ s.inventory, inventory.Described
  truthful : ∀ notices ∈ s.inFlight, ∀ notice ∈ notices,
    notice.metadata.isSome = (s.inner.ring.get notice.key).isSome
  advertised : ∀ inventory ∈ s.inventory, ∀ key, s.Settled key →
    ((key, .ssd) ∈ inventory.residents ↔ (s.inner.ring.get key).isSome = true)

omit [LruMap StateKey L] [NeZero n] in
theorem Announces.mem_inFlight (hannounces : Announces s t notices)
    {others : List Notice} (hmem : others ∈ t.inFlight) : others ∈ s.inFlight ∨ others = notices := by
  rw [hannounces.inFlight] at hmem
  split at hmem
  · exact .inl hmem
  · simpa using hmem

omit [LruMap StateKey L] [NeZero n] in
theorem Announces.settled (hannounces : Announces s t notices)
    (hsettled : t.Settled key) : s.Settled key ∧ ∀ notice ∈ notices, notice.key ≠ key := by
  unfold Settled at hsettled
  rw [hannounces.inFlight] at hsettled
  cases notices with
  | nil => exact ⟨hsettled, nofun⟩
  | cons notice rest =>
    exact ⟨fun others hmem => hsettled others (mem_append_left _ hmem),
      hsettled _ (mem_append_right _ mem_cons_self)⟩

omit [LruMap StateKey L] [NeZero n] in
theorem Agrees.announces (hs : s.Agrees)
    (hannounces : Announces s t notices) (horder : s.KeepsOrder t) : t.Agrees where
  described := hannounces.inventory ▸ hs.described
  truthful others hmem := by
    rcases hannounces.mem_inFlight hmem with hold | rfl
    · intro notice hnotice
      have hkept : s.inner.ring.get notice.key = t.inner.ring.get notice.key := by
        by_contra hchanged
        exact horder notice.key hchanged others hold notice hnotice rfl
      rw [← hkept]
      exact hs.truthful others hold notice hnotice
    · exact hannounces.truthful
  advertised inventory hinventory key hsettled := by
    obtain ⟨hsettled, hsilent⟩ := hannounces.settled hsettled
    have hkept : s.inner.ring.get key = t.inner.ring.get key := by
      by_contra hchanged
      obtain ⟨notice, hnotice, hkey⟩ := hannounces.complete key hchanged
      exact hsilent notice hnotice hkey
    rw [← hkept]
    exact hs.advertised inventory (hannounces.inventory ▸ hinventory) key hsettled

omit [LruMap StateKey L] [NeZero n] in
theorem change_cases (hdescribed : ∀ inventory ∈ s.inventory, inventory.Described)
    (hstored : medium.isStored = true) (hchange : s.change key medium metadata = some t) :
    t.inner = s.inner ∧ t.inFlight = s.inFlight ∧ ∀ inventory' ∈ t.inventory,
      inventory'.Described ∧ ∃ inventory ∈ s.inventory, ∀ residence,
        residence ∈ inventory'.residents ↔
          if residence = (key, medium) then metadata.isSome = true
          else residence ∈ inventory.residents := by
  unfold change at hchange
  split at hchange
  case h_1 hnone =>
    rw [← Option.some.inj hchange, hnone]
    exact ⟨rfl, rfl, nofun⟩
  case h_2 inventory hinventory =>
    obtain ⟨inventory', hok, rfl⟩ := Option.map_eq_some_iff.mp hchange
    refine ⟨rfl, rfl, fun other hother => ?_⟩
    cases hother
    cases hresult : inventory.change key medium metadata with
    | error panic =>
      rw [hresult] at hok
      cases hok
    | ok changed =>
      rw [hresult] at hok
      cases hok
      rcases Inventory.change_cases (hdescribed inventory hinventory) key hstored
          (Inventory.medium_of_change hresult) with herror | ⟨same, hsame, hdescribed', hresidents⟩
      · rw [hresult] at herror
        cases herror
      · rw [hresult] at hsame
        cases hsame
        exact ⟨hdescribed', inventory, hinventory, hresidents⟩

omit [LruMap StateKey L] [NeZero n] in
theorem Agrees.change (hs : s.Agrees) (hstored : medium.isStored = true) (hne : medium ≠ .ssd)
    (hchange : s.change key medium metadata = some t) : t.Agrees := by
  obtain ⟨hinner, hflight, hcall⟩ := change_cases hs.described hstored hchange
  refine ⟨fun inventory' h => (hcall inventory' h).1, ?_, fun inventory' h other hsettled => ?_⟩
  · rw [hinner, hflight]
    exact hs.truthful
  · obtain ⟨-, inventory, hinventory, hresidents⟩ := hcall inventory' h
    have hother : (other, ReplicaMedium.ssd) ≠ (key, medium) := fun heq =>
      hne (congrArg Prod.snd heq).symm
    rw [hresidents, if_neg hother, hinner]
    apply hs.advertised inventory hinventory
    unfold Settled at hsettled ⊢
    rwa [hflight] at hsettled

def deliver (s : SsdSystem n L) (operation : Nat) (rest : List Notice) : SsdSystem n L :=
  { s with
    inFlight :=
      if rest.isEmpty then s.inFlight.eraseIdx operation else s.inFlight.set operation rest }

omit [LruMap StateKey L] [NeZero n] in
theorem mem_deliver {others : List Notice} (hmem : others ∈ (s.deliver operation rest).inFlight) :
    others ∈ s.inFlight ∨ others = rest := by
  dsimp only [deliver] at hmem
  split at hmem
  · exact .inl (mem_of_mem_eraseIdx hmem)
  · exact mem_or_eq_of_mem_set hmem

omit [LruMap StateKey L] [NeZero n] in
theorem settled_of_deliver (hoperation : s.inFlight[operation]? = some (notice :: rest))
    (hsettled : (s.deliver operation rest).Settled key) (hne : notice.key ≠ key) :
    s.Settled key := by
  intro others hothers
  obtain ⟨position, hposition⟩ := getElem?_of_mem hothers
  by_cases heq : position = operation
  · -- the operation of the delivered notification: its others are still under way
    rw [heq, hoperation, Option.some.injEq] at hposition
    rw [← hposition, forall_mem_cons]
    refine ⟨hne, ?_⟩
    cases rest with
    | nil => exact nofun
    | cons next rest =>
      refine hsettled _ (mem_of_getElem? (i := operation) ?_)
      have hlt := (List.getElem?_eq_some_iff.mp hoperation).1
      exact getElem?_set_self hlt
  · refine hsettled others ?_
    dsimp only [deliver]
    split
    · exact mem_eraseIdx_iff_getElem?.mpr ⟨position, heq, hposition⟩
    · refine mem_of_getElem? (i := position) ?_
      rw [getElem?_set_ne (Ne.symm heq), hposition]

omit [LruMap StateKey L] [NeZero n] in
theorem Agrees.notify (hs : s.Agrees) (hoperation : s.inFlight[operation]? = some (notice :: rest))
    (hchange : (s.deliver operation rest).change notice.key .ssd notice.metadata = some t) :
    t.Agrees := by
  have hmem := mem_of_getElem? hoperation
  obtain ⟨hinner, hflight, hcall⟩ :=
    change_cases (s := s.deliver operation rest) hs.described rfl hchange
  refine ⟨fun inventory' h => (hcall inventory' h).1, ?_, fun inventory' h key hsettled => ?_⟩
  · intro others hothers
    rw [hinner]
    rw [hflight] at hothers
    rcases mem_deliver hothers with hold | rfl
    · exact hs.truthful others hold
    · exact fun other hother => hs.truthful _ hmem other (mem_cons_of_mem _ hother)
  · obtain ⟨-, inventory, hinventory, hresidents⟩ := hcall inventory' h
    rw [hresidents, hinner]
    by_cases hkey : notice.key = key
    · rw [← hkey, if_pos rfl, hs.truthful _ hmem notice mem_cons_self]
      rfl
    · rw [if_neg fun heq => hkey (congrArg Prod.fst heq).symm]
      apply hs.advertised inventory hinventory
      apply settled_of_deliver hoperation ?_ hkey
      unfold Settled at hsettled ⊢
      rwa [hflight] at hsettled

theorem Agrees.next (hs : s.Agrees) (hconsistent : s.Consistent) {step : SsdStep n}
    (hnext : s.next step = some t) (horder : s.KeepsOrder t) : t.Agrees := by
  rcases hconsistent.announces hnext with
    ⟨notices, hannounces⟩ | ⟨operation, rfl⟩ | ⟨key, metadata, rfl⟩
  · exact hs.announces hannounces horder
  · rw [SsdSystem.next] at hnext
    split at hnext
    case h_2 => cases hnext
    case h_1 notice rest hoperation => exact hs.notify hoperation hnext
  · exact hs.change rfl (by decide) hnext

theorem agrees_of_isNew (hnew : s.IsNew) : s.Agrees := by
  obtain ⟨shardCapacities, alignment, policy, journalBytes, rfl⟩ := hnew
  refine ⟨?_, nofun, ?_⟩
  · intro inventory hinventory
    obtain ⟨byteLimit, -, rfl⟩ := Option.map_eq_some_iff.mp hinventory
    exact Inventory.described_new byteLimit
  · intro inventory hinventory key _
    obtain ⟨byteLimit, -, rfl⟩ := Option.map_eq_some_iff.mp hinventory
    simp [Inventory.new, new, SsdRingBuffer.newSharded, SsdRingBuffer.get]

end SsdSystem

def orderedSsdMachine [LruMap StateKey L] [NeZero n] : Machine (SsdSystem n L) (SsdStep n) :=
  ssdMachine.restrict KeepsOrder

section Agreement

variable [LruMap StateKey L] [NeZero n] {s : SsdSystem n L}

theorem SsdSystem.agrees_of_reachable (hreach : orderedSsdMachine.Reachable s) :
    s.Consistent ∧ s.Agrees := by
  apply hreach.invariant (I := fun s => s.Consistent ∧ s.Agrees)
  · exact fun s hnew => ⟨consistent_of_isNew hnew, agrees_of_isNew hnew⟩
  · rintro s step t ⟨hconsistent, hagrees⟩ ⟨hnext, horder⟩
    exact ⟨hconsistent.next hnext, hagrees.next hconsistent hnext horder⟩

/-- **Advertised SSD objects.** If no operation changes a key while a notification about it is under
way, then the inventory records exactly the readable keys whenever nothing is under way. -/
theorem ssd_advertised_iff_readable (hreach : orderedSsdMachine.Reachable s)
    (hquiet : s.inFlight = []) :
    ∀ inventory ∈ s.inventory, ∀ key, (key, .ssd) ∈ inventory.residents ↔
      (s.inner.ring.get key).isSome = true := by
  intro inventory hinventory key
  apply (agrees_of_reachable hreach).2.advertised inventory hinventory key
  exact settled_of_quiet hquiet

/-! ### Waiting for every notification -/

def SsdStep.delivers : SsdStep n → Bool
  | .notify _ => true
  | _ => false

def SsdSystem.patientNext (s : SsdSystem n L) (step : SsdStep n) : Option (SsdSystem n L) :=
  if s.inFlight.isEmpty || step.delivers then s.next step else none

theorem SsdSystem.inner_of_notify {t : SsdSystem n L} {operation : Nat}
    (hnext : s.next (.notify operation) = some t) : t.inner = s.inner := by
  rw [next] at hnext
  split at hnext
  case h_2 => cases hnext
  case h_1 notice rest hoperation =>
    obtain ⟨_, rfl⟩ := exists_of_change (s := s.deliver operation rest) hnext
    rfl

theorem SsdSystem.keepsOrder_of_patientNext {t : SsdSystem n L} {step : SsdStep n}
    (hpatient : s.patientNext step = some t) : s.next step = some t ∧ s.KeepsOrder t := by
  unfold patientNext at hpatient
  split at hpatient
  case isFalse => cases hpatient
  case isTrue hwaited =>
    refine ⟨hpatient, fun key hchanged => ?_⟩
    rcases Bool.or_eq_true_iff.mp hwaited with hquiet | hdelivers
    · exact settled_of_quiet (List.isEmpty_iff.mp hquiet)
    · cases step with
      | notify operation =>
        rw [inner_of_notify hpatient] at hchanged
        exact absurd rfl hchanged
      | _ => cases hdelivers

theorem orderedSsdMachine_of_patient
    (hreach : (Machine.ofNext IsNew patientNext).Reachable s) :
    orderedSsdMachine.Reachable s := by
  apply Machine.Reachable.mono (N := orderedSsdMachine) ?_ ?_ hreach
  · exact fun s hnew => hnew
  · exact fun s step t hpatient => keepsOrder_of_patientNext hpatient

end Agreement

/-- One entry fills the ring. The second entry evicts the first after the first has been announced. -/
def evictingSteps : List (SsdStep 1) :=
  [.reserveGpu (ssdKey 1) [.new [4]] true, .commitWrite 0 true, .notify 0,
    .reserveGpu (ssdKey 2) [.new [4]] true, .notify 0, .commitWrite 0 true, .notify 0]

theorem ssd_advertised_iff_readable_evicting :
    ∃ s : SsdSystem 1 (LruList StateKey), orderedSsdMachine.Reachable s ∧ s.inFlight = [] ∧
      s.inner.ring.get (ssdKey 1) = none ∧ (s.inner.ring.get (ssdKey 2)).isSome = true ∧
      ∀ inventory ∈ s.inventory, ∀ key, (key, .ssd) ∈ inventory.residents ↔
        (s.inner.ring.get key).isSome = true := by
  have hrun : (evictingSteps.foldlM patientNext (smallStore 4)).any (fun s =>
      s.inFlight = [] ∧ s.inner.ring.get (ssdKey 1) = none ∧
        (s.inner.ring.get (ssdKey 2)).isSome = true) = true := by
    decide +kernel
  obtain ⟨s, hs⟩ := Option.isSome_iff_exists.mp (Option.isSome_of_any hrun)
  rw [hs] at hrun
  have hreach : orderedSsdMachine.Reachable s :=
    orderedSsdMachine_of_patient ((Machine.Reachable.of_init (smallStore_isNew 4)).foldlM hs)
  obtain ⟨hquiet, hfirst, hsecond⟩ := of_decide_eq_true hrun
  exact ⟨s, hreach, hquiet, hfirst, hsecond, ssd_advertised_iff_readable hreach hquiet⟩

def overtakingSteps : List (SsdStep 1) :=
  [.reserveGpu (ssdKey 1) [.new [4]] true, .commitWrite 0 true,
    .reserveGpu (ssdKey 2) [.new [4]] true, .notify 1, .notify 0]

/-- Nothing is under way, and the inventory records a key that the ring no longer holds. -/
theorem ssd_advertised_overtaken :
    ∃ s : SsdSystem 1 (LruList StateKey), ssdMachine.Reachable s ∧ s.inFlight = [] ∧
      s.inner.ring.get (ssdKey 1) = none ∧
      ∃ inventory ∈ s.inventory, (ssdKey 1, .ssd) ∈ inventory.residents := by
  have hrun : (overtakingSteps.foldlM next (smallStore 4)).any (fun s =>
      s.inFlight = [] ∧ s.inner.ring.get (ssdKey 1) = none ∧
        (s.inventory.any fun inventory =>
          decide ((ssdKey 1, ReplicaMedium.ssd) ∈ inventory.residents)) = true) = true := by
    decide +kernel
  obtain ⟨s, hs⟩ := Option.isSome_iff_exists.mp (Option.isSome_of_any hrun)
  rw [hs] at hrun
  obtain ⟨hquiet, hfirst, hadvertised⟩ := of_decide_eq_true hrun
  refine ⟨s, (Machine.Reachable.of_init (smallStore_isNew 4)).foldlM hs, hquiet, hfirst, ?_⟩
  obtain ⟨inventory, hinventory⟩ := Option.isSome_iff_exists.mp (Option.isSome_of_any hadvertised)
  rw [hinventory] at hadvertised
  exact ⟨inventory, hinventory, of_decide_eq_true hadvertised⟩

end OrbitKV
