import OrbitKV.Lib.Ends
import OrbitKV.Proof.Advertised
import OrbitKV.Storage.Dram

/-!
# Residents and their classes

A resident block is tracked in the cache, in one class, in the byte counter if that class is the
retained one, and in the inventory.
-/

namespace OrbitKV

open Std LruMap

open LruMap (empty entries peek touch contains oldest total)

variable {L : Type → Type} [LruMap StateKey L]

/-- The panics that the invariant does not exclude: a 64-bit counter has run out. -/
def DramPanic.IsExhaustion (panic : DramPanic) : Prop :=
  panic = .bytesOverflow ∨ panic = .inventory .sequenceExhausted

/-! ### The cache -/

namespace TinyLfuCache

theorem get_eq (cache : TinyLfuCache L) (key : StateKey) :
    ∃ cache', cache.get key = (LruMap.peek cache.lru key, cache') ∧
      ∀ other, LruMap.peek cache'.lru other = LruMap.peek cache.lru other := by
  unfold get
  cases hkey : LruMap.peek cache.lru key with
  | none => exact ⟨cache, rfl, fun _ => rfl⟩
  | some block => exact ⟨_, rfl, fun _ => LruMap.peek_touch⟩

theorem insert_cases (cache : TinyLfuCache L) (key : StateKey) (block : SealedBlock) :
    ∃ cache', cache'.lru = cache.lru ∧
      (cache.insert key block = (.alreadyExists, cache') ∨
        cache.insert key block = (.rejected, cache') ∨
        LruMap.peek cache.lru key = none ∧
          cache.insert key block =
            (.insertedNew, { cache' with lru := LruMap.insert cache.lru key block })) := by
  refine ⟨cache.recordAccess key, rfl, ?_⟩
  rw [insert]
  split
  case isTrue => exact .inl rfl
  case isFalse hnew =>
    split
    case isTrue => exact .inr (.inl rfl)
    case isFalse =>
      have hrecorded : LruMap.peek (cache.recordAccess key).lru key = none :=
        LruMap.contains_eq_false.mp (Bool.eq_false_iff.mpr hnew)
      exact .inr (.inr ⟨hrecorded, rfl⟩)

end TinyLfuCache

def Advertises (inventory : Option Inventory) (keys : StateKey → Prop) : Prop :=
  ∀ recorded ∈ inventory, recorded.Described ∧
    ∀ key, (key, ReplicaMedium.dram) ∈ recorded.residents ↔ keys key

theorem Advertises.congr {inventory : Option Inventory} {keys keys' : StateKey → Prop}
    (hkeys : Advertises inventory keys) (hiff : ∀ key, keys key ↔ keys' key) :
    Advertises inventory keys' := fun recorded hrecorded =>
  ⟨(hkeys recorded hrecorded).1, fun key => ((hkeys recorded hrecorded).2 key).trans (hiff key)⟩

namespace DramStoreInner

variable {inner inner' : DramStoreInner L} {key : StateKey} {metadata : ResidentMetadata}
  {cls source target : ResidentClass}

section Fields

variable (inner) (cls) (lru : L ResidentMetadata)

omit [LruMap StateKey L]

@[simp] theorem classLru_setClassLru (other : ResidentClass) :
    (inner.setClassLru cls lru).classLru other = if other = cls then lru else inner.classLru other := by
  cases cls <;> cases other <;> rfl

@[simp] theorem cache_setClassLru : (inner.setClassLru cls lru).cache = inner.cache := by
  cases cls <;> rfl

@[simp] theorem inventory_setClassLru :
    (inner.setClassLru cls lru).inventory = inner.inventory := by
  cases cls <;> rfl

@[simp] theorem retainedBytes_setClassLru :
    (inner.setClassLru cls lru).retainedBytes = inner.retainedBytes := by
  cases cls <;> rfl

@[simp] theorem protectedLimit_setClassLru :
    (inner.setClassLru cls lru).protectedLimit = inner.protectedLimit := by
  cases cls <;> rfl

theorem debugAssert_of_true : inner.debugAssert true = .ok () := by
  simp [debugAssert]

end Fields

/-! ### The invariant -/

def held (inner : DramStoreInner L) (key : StateKey) (cls : ResidentClass) :
    Option ResidentMetadata :=
  peek (inner.classLru cls) key

/-- Exactly one class holds a resident block, with its footprint; none holds anything else. -/
def Places (held : ResidentClass → Option ResidentMetadata) : Option SealedBlock → Prop
  | none => ∀ cls, held cls = none
  | some block => ∃ place, ∀ cls, held cls = if cls = place then some ⟨block.footprint⟩ else none

/-- The invariant without the bound on the protected class, which a promotion breaks for a while. -/
structure Stowed (inner : DramStoreInner L) : Prop where
  placed : ∀ key, Places (inner.held key) (peek inner.cache.lru key)
  counted : inner.retainedBytes = total ResidentMetadata.bytes (inner.classLru .retained)
  advertised : Advertises inner.inventory fun key => contains inner.cache.lru key = true

/-- **The invariant of the store.** -/
structure Coherent (inner : DramStoreInner L) : Prop extends Stowed inner where
  bounded : 0 < inner.protectedLimit → inner.retainedBytes ≤ inner.protectedLimit

theorem Places.of_held {held : ResidentClass → Option ResidentMetadata}
    {resident : Option SealedBlock} (hplaced : Places held resident)
    (hheld : held cls = some metadata) :
    (∃ block, resident = some block ∧ metadata = ⟨block.footprint⟩) ∧
      ∀ other, held other = if other = cls then some metadata else none := by
  cases resident with
  | none => exact absurd (hheld.symm.trans (hplaced cls)) (Option.some_ne_none _)
  | some block =>
    obtain ⟨place, hplace⟩ := hplaced
    obtain rfl : cls = place := by
      by_contra hne
      exact absurd (hheld.symm.trans ((hplace cls).trans (if_neg hne))) (Option.some_ne_none _)
    obtain rfl : metadata = ⟨block.footprint⟩ := by
      simpa using hheld.symm.trans (hplace cls)
    exact ⟨⟨block, rfl, rfl⟩, hplace⟩

theorem Stowed.congr (hstowed : inner.Stowed)
    (hcache : ∀ key, peek inner'.cache.lru key = peek inner.cache.lru key)
    (hheld : ∀ key cls, inner'.held key cls = inner.held key cls)
    (htotal : total ResidentMetadata.bytes (inner'.classLru .retained) =
      total ResidentMetadata.bytes (inner.classLru .retained))
    (hbytes : inner'.retainedBytes = inner.retainedBytes)
    (hinventory : inner'.inventory = inner.inventory) : inner'.Stowed where
  placed key := by
    rw [hcache, funext (hheld key)]
    exact hstowed.placed key
  counted := by rw [hbytes, htotal, hstowed.counted]
  advertised := by
    rw [hinventory]
    refine hstowed.advertised.congr fun key => ?_
    rw [contains, contains, hcache]

section

variable (hcoherent : inner.Coherent)

include hcoherent

theorem Coherent.withCache {cache : TinyLfuCache L}
    (hcache : ∀ key, peek cache.lru key = peek inner.cache.lru key) :
    Coherent { inner with cache } where
  toStowed := hcoherent.toStowed.congr hcache (fun _ _ => rfl) rfl rfl rfl
  bounded := hcoherent.bounded

theorem Coherent.touch (cls : ResidentClass) (key : StateKey) :
    Coherent (inner.setClassLru cls (touch (inner.classLru cls) key)) where
  toStowed := by
    refine hcoherent.toStowed.congr (by simp) (fun other cls' => ?_) ?_ (by simp) (by simp)
    · by_cases heq : cls' = cls
      · simp [held, heq]
      · simp [held, heq]
    · by_cases heq : ResidentClass.retained = cls
      · simp [← heq]
      · simp [heq]
  bounded := by simpa using hcoherent.bounded

theorem Coherent.exists_held (hresident : contains inner.cache.lru key = true) : ∃ cls metadata,
    inner.held key cls = some metadata := by
  obtain ⟨block, hblock⟩ := exists_peek hresident
  have hplaced := hcoherent.placed key
  rw [hblock] at hplaced
  obtain ⟨place, hplace⟩ := hplaced
  exact ⟨place, ⟨block.footprint⟩, (hplace place).trans (if_pos rfl)⟩

theorem Coherent.contains_of_held
    (hheld : inner.held key cls = some metadata) : contains inner.cache.lru key = true := by
  obtain ⟨⟨block, hblock, -⟩, -⟩ := (hcoherent.placed key).of_held hheld
  exact contains_of_peek hblock

theorem Coherent.class_unique
    (hcls : contains (inner.classLru cls) key = true) {other : ResidentClass}
    (hother : contains (inner.classLru other) key = true) : other = cls := by
  obtain ⟨metadata, hheld⟩ := exists_peek hcls
  obtain ⟨metadata', hheld'⟩ := exists_peek hother
  by_contra hne
  have hnone := (((hcoherent.placed key).of_held hheld).2 other).trans (if_neg hne)
  exact absurd (hheld'.symm.trans hnone) nofun

theorem refreshRecency_ok (key : StateKey) :
    ∃ inner', inner.refreshRecency key = .ok inner' ∧ inner'.Coherent ∧
      inner'.cache = inner.cache := by
  unfold refreshRecency
  split
  · exact ⟨_, rfl, hcoherent.touch .reclaimable key, rfl⟩
  split
  · exact ⟨_, rfl, hcoherent.touch .probationary key, rfl⟩
  split
  · exact ⟨_, rfl, hcoherent.touch .retained key, rfl⟩
  next hreclaimable hprobationary hretained =>
  have hnone : inner.cache.containsKey key = false := by
    refine Bool.eq_false_iff.mpr fun hresident => ?_
    obtain ⟨cls, metadata, hheld⟩ := hcoherent.exists_held hresident
    cases cls with
    | reclaimable => exact hreclaimable (contains_of_peek hheld)
    | probationary => exact hprobationary (contains_of_peek hheld)
    | retained => exact hretained (contains_of_peek hheld)
  refine ⟨inner, ?_, hcoherent, rfl⟩
  rw [hnone, Bool.not_false, debugAssert_of_true]
  rfl

end

/-! ### Moves between classes -/

def afterMove (inner : DramStoreInner L) (key : StateKey) (source target : ResidentClass)
    (metadata : ResidentMetadata) (bytes : Nat) : DramStoreInner L :=
  let cleared := { inner.setClassLru source (remove (inner.classLru source) key) with
    retainedBytes := bytes }
  cleared.setClassLru target (insert (cleared.classLru target) key metadata)

omit [LruMap StateKey L] in
theorem classLru_withBytes (inner : DramStoreInner L) (bytes : Nat) (cls : ResidentClass) :
    ({ inner with retainedBytes := bytes } : DramStoreInner L).classLru cls =
      inner.classLru cls := by
  cases cls <;> rfl

theorem classLru_afterMove (hne : source ≠ target) (bytes : Nat) (cls : ResidentClass) :
    (inner.afterMove key source target metadata bytes).classLru cls =
      if cls = target then insert (inner.classLru target) key metadata
      else if cls = source then remove (inner.classLru source) key
      else inner.classLru cls := by
  simp only [afterMove, classLru_setClassLru, classLru_withBytes, if_neg hne.symm]

theorem held_afterMove (hne : source ≠ target) (bytes : Nat) (other : StateKey)
    (cls : ResidentClass) :
    (inner.afterMove key source target metadata bytes).held other cls =
      if other = key then
        if cls = target then some metadata
        else if cls = source then none
        else inner.held other cls
      else inner.held other cls := by
  rw [held, classLru_afterMove hne]
  split
  case isTrue heq => rw [peek_insert, heq, held]
  split
  case isTrue heq => rw [peek_remove, heq, held]
  case isFalse => rw [ite_self, held]

theorem stowed_afterMove (hstowed : inner.Stowed) (hne : source ≠ target)
    (hheld : inner.held key source = some metadata) {bytes : Nat}
    (hbytes : bytes = total ResidentMetadata.bytes
      ((inner.afterMove key source target metadata bytes).classLru .retained)) :
    (inner.afterMove key source target metadata bytes).Stowed := by
  have hcache : (inner.afterMove key source target metadata bytes).cache = inner.cache := by
    simp [afterMove]
  obtain ⟨⟨block, hblock, rfl⟩, honly⟩ := (hstowed.placed key).of_held hheld
  refine ⟨fun other => ?_, ?_, ?_⟩
  · rw [hcache]
    by_cases hother : other = key
    · subst hother
      rw [hblock]
      refine ⟨target, fun cls => ?_⟩
      rw [held_afterMove hne, if_pos rfl]
      split
      case isTrue => rfl
      split
      case isTrue => rfl
      case isFalse hsource => exact (honly cls).trans (if_neg hsource)
    · have hsame : (inner.afterMove key source target ⟨block.footprint⟩ bytes).held other =
          inner.held other := by
        funext cls
        rw [held_afterMove hne, if_neg hother]
      rw [hsame]
      exact hstowed.placed other
  · rw [← hbytes]
    simp [afterMove]
  · rw [hcache]
    have hinventory : (inner.afterMove key source target ⟨block.footprint⟩ bytes).inventory =
        inner.inventory := by simp [afterMove]
    rw [hinventory]
    exact hstowed.advertised

theorem moveResident_demote (hstowed : inner.Stowed)
    (hheld : inner.held key .retained = some metadata) :
    ∃ inner', inner.moveResident key .retained .probationary = .ok (true, inner') ∧
      inner'.Stowed ∧ inner'.cache = inner.cache ∧ inner'.protectedLimit = inner.protectedLimit ∧
      (entries inner'.retained).length + 1 = (entries inner.retained).length ∧
      ∀ other ≠ key, ∀ cls, inner'.held other cls = inner.held other cls := by
  have hne : ResidentClass.retained ≠ .probationary := nofun
  have htotal := total_remove ResidentMetadata.bytes hheld
  have hle : metadata.bytes ≤ inner.retainedBytes := by
    rw [hstowed.counted]
    omega
  refine ⟨inner.afterMove key .retained .probationary metadata
    (inner.retainedBytes - metadata.bytes), ?_, ?_, by simp [afterMove], by simp [afterMove], ?_,
    fun other hother cls => (held_afterMove hne _ other cls).trans (if_neg hother)⟩
  · rw [held] at hheld
    simp only [moveResident, hheld, subRetained, retainedBytes_setClassLru, if_pos hle, if_true,
      bind, Except.bind, pure, Except.pure]
    rfl
  · refine stowed_afterMove hstowed hne hheld ?_
    rw [classLru_afterMove hne, if_neg hne, if_pos rfl, hstowed.counted]
    omega
  · exact length_remove hheld

theorem moveResident_promote (hstowed : inner.Stowed) (hne : source ≠ .retained)
    (hheld : inner.held key source = some metadata) :
    Ends DramPanic.IsExhaustion (fun result => result.2.Stowed ∧ result.2.cache = inner.cache ∧
        result.2.protectedLimit = inner.protectedLimit ∧
        result.2.retainedBytes = inner.retainedBytes + metadata.bytes)
      (inner.moveResident key source .retained) := by
  have hnew : peek (inner.classLru .retained) key = none :=
    (((hstowed.placed key).of_held hheld).2 .retained).trans (if_neg hne.symm)
  have hmove : inner.moveResident key source .retained =
      if inner.retainedBytes + metadata.bytes < u64Bound then
        .ok (true, inner.afterMove key source .retained metadata
          (inner.retainedBytes + metadata.bytes))
      else .error .bytesOverflow := by
    rw [held] at hheld
    simp only [moveResident, hheld, if_neg hne, if_true, addRetained, bind, Except.bind,
      retainedBytes_setClassLru]
    by_cases hroom : inner.retainedBytes + metadata.bytes < u64Bound
    · simp only [if_pos hroom]
      rfl
    · simp only [if_neg hroom]
  rw [hmove]
  split
  case isFalse => exact .inl rfl
  case isTrue =>
    refine ⟨stowed_afterMove hstowed hne hheld ?_, by simp [afterMove], by simp [afterMove],
      by simp [afterMove]⟩
    rw [classLru_afterMove hne, if_pos rfl, total_insert_of_none _ hnew, hstowed.counted]

/-- **Demotion.** It stops with enough room below the limit, and only takes keys out of the retained
class. -/
theorem demote_ok (remaining : Nat) {count : Nat} (hstowed : inner.Stowed)
    (hcount : (entries inner.retained).length = count) :
    ∃ inner', demote remaining count inner = .ok inner' ∧ inner'.Stowed ∧
      inner'.cache = inner.cache ∧ inner'.protectedLimit = inner.protectedLimit ∧
      inner'.retainedBytes ≤ remaining ∧
      ∀ other, inner.held other .retained = none →
        ∀ cls, inner'.held other cls = inner.held other cls := by
  induction count generalizing inner with
  | zero =>
    have hzero : inner.retainedBytes = 0 := by
      have hempty : entries (inner.classLru .retained) = [] := List.length_eq_zero_iff.mp hcount
      rw [hstowed.counted, total, hempty]
      rfl
    exact ⟨inner, by simp [demote, hzero], hstowed, rfl, rfl, by simp [hzero], fun _ _ _ => rfl⟩
  | succ count ih =>
    rw [demote]
    split
    case isFalse hfits =>
      exact ⟨inner, rfl, hstowed, rfl, rfl, Nat.le_of_not_lt hfits, fun _ _ _ => rfl⟩
    case isTrue habove =>
      have hpos : 0 < total ResidentMetadata.bytes (inner.classLru .retained) := by
        rw [← hstowed.counted]
        omega
      obtain ⟨victim, metadata, hvictim⟩ := exists_oldest_of_total_pos hpos
      have hheld : inner.held victim .retained = some metadata := peek_oldest hvictim
      obtain ⟨middle, hmove, hmiddle, hcache, hlimit, hlength, hothers⟩ :=
        moveResident_demote hstowed hheld
      obtain ⟨final, hdemote, hfinal, hcache', hlimit', hroom, hothers'⟩ := ih hmiddle (by omega)
      have holdest : oldest inner.retained = some (victim, metadata) := hvictim
      refine ⟨final, ?_, hfinal, hcache'.trans hcache, hlimit'.trans hlimit, hroom, ?_⟩
      · simp only [holdest, hmove, bind, Except.bind]
        exact hdemote
      · intro other hnone cls
        have hne : other ≠ victim := by
          rintro rfl
          exact absurd (hheld.symm.trans hnone) (Option.some_ne_none _)
        rw [hothers' other (by rw [hothers other hne, hnone]), hothers other hne]

/-- **Demand.** The promoted block is the resident one, so that what is promoted fits into the room
that the demotions made. -/
theorem retainDemand_ends (hcoherent : inner.Coherent) {block : SealedBlock}
    (hblock : peek inner.cache.lru key = some block) (warmed : Bool) :
    Ends DramPanic.IsExhaustion (fun inner' => inner'.Coherent ∧ inner'.cache = inner.cache)
      (inner.retainDemand key block warmed) := by
  unfold retainDemand
  have hkeep : inner.Coherent ∧ inner.cache = inner.cache := ⟨hcoherent, rfl⟩
  dsimp only
  split
  case h_1 => exact hkeep
  case h_2 source hsource =>
  have hne : source ≠ .retained := by
    rintro rfl
    split at hsource
    · cases hsource
    · split at hsource <;> cases hsource
  split
  case isTrue => exact hkeep
  case isFalse hmem =>
  obtain ⟨metadata, hheld⟩ := exists_peek (by simpa using hmem)
  obtain ⟨⟨block', hblock', rfl⟩, honly⟩ := (hcoherent.placed key).of_held hheld
  obtain rfl := Option.some.inj (hblock.symm.trans hblock')
  split
  case isFalse hlimit =>
    refine (moveResident_promote hcoherent.toStowed hne hheld).bind ?_
    rintro ⟨_, final⟩ ⟨hfinal, hcache, hlimit', -⟩
    exact ⟨⟨hfinal, fun hpos => absurd (hlimit' ▸ hpos) hlimit⟩, hcache⟩
  case isTrue hlimit =>
  split
  case isTrue => exact hkeep
  case isFalse hfits =>
    obtain ⟨middle, hdemote, hmiddle, hcache, hlimit', hroom, hothers⟩ :=
      demote_ok (inner.protectedLimit - block.memoryFootprint) hcoherent.toStowed rfl
    simp only [hdemote]
    -- the key was not retained, so the demotions have left it where it was
    have hheld' : middle.held key source = some ⟨block.footprint⟩ := by
      rw [hothers key ((honly .retained).trans (if_neg hne.symm))]
      exact hheld
    refine (moveResident_promote hmiddle hne hheld').bind ?_
    rintro ⟨_, final⟩ ⟨hfinal, hcache', hlimit'', hbytes⟩
    refine ⟨⟨hfinal, fun _ => ?_⟩, hcache'.trans hcache⟩
    have hfootprint : block.memoryFootprint = block.footprint := rfl
    rw [hbytes, hlimit'', hlimit']
    change middle.retainedBytes + block.footprint ≤ inner.protectedLimit
    omega

end DramStoreInner

end OrbitKV
