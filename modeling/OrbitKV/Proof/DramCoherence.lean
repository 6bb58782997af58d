import OrbitKV.Proof.DramClasses

/-!
# Coherence of the DRAM store

A call stops only where a 64-bit counter is exhausted.
-/

namespace OrbitKV

open Std LruMap DramStore DramPanic DramStoreInner

open LruMap (empty entries peek touch contains oldest total)

variable {L : Type → Type} [LruMap StateKey L]

namespace DramStoreInner

variable {inner inner' : DramStoreInner L} {key : StateKey} {metadata : ResidentMetadata}
  {cls : ResidentClass}

/-! ### Insertions and removals -/

omit [LruMap StateKey L] in
theorem notify_ends (inner : DramStoreInner L) {keys : StateKey → Prop}
    (hkeys : Advertises inner.inventory keys) (key : StateKey) {metadata : Option ReplicaMetadata}
    (hmedium : ∀ m ∈ metadata, m.medium = .dram) :
    Ends IsExhaustion (fun inner' => ∃ inventory, inner' = { inner with inventory } ∧
        Advertises inventory fun other => if other = key then metadata.isSome = true else keys other)
      (inner.notify key metadata) := by
  unfold notify
  cases hinventory : inner.inventory with
  | none =>
    refine ⟨none, ?_, nofun⟩
    rw [← hinventory]
  | some inventory =>
    obtain ⟨hdescribed, hresidents⟩ := hkeys inventory hinventory
    have hstored : ReplicaMedium.isStored .dram = true := rfl
    rcases Inventory.change_cases hdescribed key hstored hmedium with
      hexhausted | ⟨inventory', hok, hdescribed', hresidents'⟩
    · simp only [hexhausted]
      exact .inr rfl
    · simp only [hok]
      refine ⟨some inventory', rfl, ?_⟩
      rintro _ ⟨⟩
      refine ⟨hdescribed', fun other => ?_⟩
      rw [hresidents']
      by_cases heq : other = key
      · simp [heq]
      · simp [heq, hresidents]

def Keeps (inner inner' : DramStoreInner L) : Prop :=
  ∀ key block, peek inner.cache.lru key = some block → peek inner'.cache.lru key = some block

structure Entered (inner inner' : DramStoreInner L) (key : StateKey) (block : SealedBlock)
    (cls : ResidentClass) : Prop where
  cache : inner'.cache.lru = insert inner.cache.lru key block
  classes : ∀ other, inner'.classLru other =
    if other = cls then insert (inner.classLru cls) key ⟨block.footprint⟩ else inner.classLru other
  bytes : inner'.retainedBytes =
    if cls = .retained then inner.retainedBytes + block.footprint else inner.retainedBytes
  limit : inner'.protectedLimit = inner.protectedLimit
  advertised : Advertises inner'.inventory fun other =>
    if other = key then True else contains inner.cache.lru other = true

theorem Entered.keeps {block : SealedBlock} (hentered : Entered inner inner' key block cls)
    (hnew : peek inner.cache.lru key = none) : inner.Keeps inner' := by
  intro other resident hresident
  rw [hentered.cache, peek_insert, if_neg, hresident]
  rintro rfl
  exact absurd (hnew.symm.trans hresident) nofun

theorem Entered.coherent {block : SealedBlock} (hentered : Entered inner inner' key block cls)
    (hcoherent : inner.Coherent) (hnew : peek inner.cache.lru key = none)
    (hfree : cls = .retained → inner.protectedLimit = 0) : inner'.Coherent := by
  have hnone : ∀ other, peek (inner.classLru other) key = none := by
    have hplaced := hcoherent.placed key
    rwa [hnew] at hplaced
  refine ⟨⟨fun other => ?_, ?_, ?_⟩, ?_⟩
  · rw [hentered.cache, peek_insert]
    by_cases heq : other = key
    · subst heq
      rw [if_pos rfl]
      refine ⟨cls, fun cls' => ?_⟩
      rw [held, hentered.classes]
      split
      case isTrue => exact peek_insert.trans (if_pos rfl)
      case isFalse => exact hnone cls'
    · have hheld : inner'.held other = inner.held other := by
        funext cls'
        rw [held, hentered.classes, held]
        split
        case isTrue hcls => rw [hcls, peek_insert, if_neg heq]
        case isFalse => rfl
      rw [if_neg heq, hheld]
      exact hcoherent.placed other
  · rw [hentered.bytes, hentered.classes]
    by_cases hretained : cls = .retained
    · rw [if_pos hretained, if_pos hretained.symm, total_insert_of_none _ (hnone cls),
        hretained, hcoherent.counted]
    · rw [if_neg hretained, if_neg (Ne.symm hretained), hcoherent.counted]
  · refine hentered.advertised.congr fun other => ?_
    by_cases heq : other = key
    · simp [hentered.cache, contains, peek_insert, heq]
    · simp [hentered.cache, contains, peek_insert, heq]
  · intro hpos
    rw [hentered.limit] at hpos ⊢
    have hother : cls ≠ .retained := fun hretained => hpos.ne' (hfree hretained)
    rw [hentered.bytes, if_neg hother]
    exact hcoherent.bounded hpos

structure Left (inner inner' : DramStoreInner L) (key : StateKey) (metadata : ResidentMetadata)
    (cls : ResidentClass) : Prop where
  cache : inner'.cache.lru = remove inner.cache.lru key
  classes : ∀ other, inner'.classLru other =
    if other = cls then remove (inner.classLru cls) key else inner.classLru other
  bytes : inner'.retainedBytes =
    if cls = .retained then inner.retainedBytes - metadata.bytes else inner.retainedBytes
  limit : inner'.protectedLimit = inner.protectedLimit
  advertised : Advertises inner'.inventory fun other =>
    if other = key then False else contains inner.cache.lru other = true

theorem Left.coherent (hleft : Left inner inner' key metadata cls) (hcoherent : inner.Coherent)
    (hheld : inner.held key cls = some metadata) : inner'.Coherent := by
  obtain ⟨-, honly⟩ := (hcoherent.placed key).of_held hheld
  refine ⟨⟨fun other => ?_, ?_, ?_⟩, ?_⟩
  · rw [hleft.cache, peek_remove]
    by_cases heq : other = key
    · subst heq
      rw [if_pos rfl]
      intro cls'
      rw [held, hleft.classes]
      split
      case isTrue => exact peek_remove.trans (if_pos rfl)
      case isFalse hcls => exact (honly cls').trans (if_neg hcls)
    · have hsame : inner'.held other = inner.held other := by
        funext cls'
        rw [held, hleft.classes, held]
        split
        case isTrue hcls => rw [hcls, peek_remove, if_neg heq]
        case isFalse => rfl
      rw [if_neg heq, hsame]
      exact hcoherent.placed other
  · rw [hleft.bytes, hleft.classes]
    by_cases hretained : cls = .retained
    · subst hretained
      have htotal := total_remove ResidentMetadata.bytes hheld
      rw [if_pos rfl, if_pos rfl, hcoherent.counted]
      omega
    · rw [if_neg hretained, if_neg (Ne.symm hretained), hcoherent.counted]
  · refine hleft.advertised.congr fun other => ?_
    by_cases heq : other = key
    · simp [hleft.cache, contains, peek_remove, heq]
    · simp [hleft.cache, contains, peek_remove, heq]
  · intro hpos
    rw [hleft.limit] at hpos ⊢
    have hle : inner'.retainedBytes ≤ inner.retainedBytes := by
      rw [hleft.bytes]
      split <;> omega
    exact hle.trans (hcoherent.bounded hpos)

theorem insertBlock_ends (hcoherent : inner.Coherent) (key : StateKey) (block : SealedBlock)
    (cls : ResidentClass) (warmed : Bool) :
    Ends IsExhaustion (fun result => result.2.Coherent ∧ inner.Keeps result.2)
      (inner.insertBlock key block cls warmed) := by
  unfold insertBlock
  split
  case isTrue => exact ⟨hcoherent, fun _ _ => id⟩
  case isFalse =>
  obtain ⟨cache, hlru, hexists | hrejected | ⟨hnew, hinserted⟩⟩ :=
    inner.cache.insert_cases key block
  · have hcache : Coherent { inner with cache } := hcoherent.withCache fun _ => by rw [hlru]
    obtain ⟨inner', hrefresh, hcoherent', hsame⟩ := refreshRecency_ok hcache key
    simp only [hexists, hrefresh]
    refine ⟨hcoherent', fun key block hblock => ?_⟩
    change peek inner'.cache.lru key = some block
    rw [hsame, hlru]
    exact hblock
  · simp only [hrejected]
    refine ⟨hcoherent.withCache fun _ => by rw [hlru], fun key block hblock => ?_⟩
    change peek cache.lru key = some block
    rw [hlru]
    exact hblock
  · simp only [hinserted]
    generalize hplace : (if 0 < inner.protectedLimit ∧ cls = .retained then .probationary else cls) =
      place
    have hfree : place = .retained → inner.protectedLimit = 0 := by
      rintro rfl
      split at hplace
      case isTrue => cases hplace
      case isFalse hlimit =>
        by_contra hne
        exact hlimit ⟨Nat.pos_of_ne_zero hne, hplace⟩
    have hmedium : ∀ m ∈ some block.replicaMetadata, m.medium = .dram := by
      rintro _ ⟨⟩
      rfl
    refine (notify_ends { inner with
      cache := { cache with lru := insert inner.cache.lru key block } }
      hcoherent.advertised key hmedium).bind ?_
    rintro _ ⟨inventory, rfl, hadvertised⟩
    have hpost : ∀ inner', Entered inner inner' key block place →
        inner'.Coherent ∧ inner.Keeps inner' := fun inner' hentered =>
      ⟨hentered.coherent hcoherent hnew hfree, hentered.keeps hnew⟩
    simp only [Option.isSome_some] at hadvertised
    cases place with
    | reclaimable => exact hpost _ ⟨rfl, by rintro (_ | _ | _) <;> rfl, rfl, rfl, hadvertised⟩
    | probationary => exact hpost _ ⟨rfl, by rintro (_ | _ | _) <;> rfl, rfl, rfl, hadvertised⟩
    | retained =>
      rw [if_pos rfl, addRetained]
      split
      case isFalse => exact .inl rfl
      case isTrue => exact hpost _ ⟨rfl, by rintro (_ | _ | _) <;> rfl, rfl, rfl, hadvertised⟩

theorem removeLru_ends (hcoherent : inner.Coherent) {count : Nat}
    (holdest : oldest (inner.classLru cls) = some (key, metadata)) :
    Ends IsExhaustion (fun result => Left inner result.2 key metadata cls ∧
        ∃ block, peek inner.cache.lru key = some block ∧ result.1 = some ⟨key, block⟩)
      (removeLru cls (count + 1) inner) := by
  have hheld : inner.held key cls = some metadata := peek_oldest holdest
  obtain ⟨⟨block, hblock, rfl⟩, -⟩ := (hcoherent.placed key).of_held hheld
  have hmedium : ∀ m ∈ (none : Option ReplicaMetadata), m.medium = .dram := nofun
  simp only [removeLru, holdest, cache_setClassLru, TinyLfuCache.remove, hblock,
    debugAssert_of_true, Option.isSome_some]
  refine (notify_ends { inner.setClassLru cls (remove (inner.classLru cls) key) with
    cache := { inner.cache with lru := remove inner.cache.lru key } }
    (by simpa using hcoherent.advertised) key hmedium).bind ?_
  rintro _ ⟨inventory, rfl, hadvertised⟩
  simp only [Option.isSome_none, Bool.false_eq_true] at hadvertised
  cases cls with
  | retained =>
    have htotal := total_remove ResidentMetadata.bytes hheld
    dsimp only at htotal
    have hle : block.footprint ≤ inner.retainedBytes := by
      rw [hcoherent.counted]
      omega
    rw [if_pos rfl, subRetained, if_pos (by simpa using hle)]
    exact ⟨⟨rfl, by rintro (_ | _ | _) <;> rfl, rfl, rfl, hadvertised⟩, block, rfl, rfl⟩
  | _ => exact ⟨⟨rfl, by rintro (_ | _ | _) <;> rfl, rfl, rfl, hadvertised⟩, block, rfl, rfl⟩

theorem removeLruBatchFromClass_ends (cls : ResidentClass) (batchSize targetBytes : Nat)
    (strongCount : Nat → Nat) (candidates : Nat) (hcoherent : inner.Coherent)
    (removed : List RemovedResident) (removedBytes : Nat) :
    Ends IsExhaustion (fun result => result.1.Coherent)
      (removeLruBatchFromClass cls batchSize targetBytes strongCount candidates inner removed
        removedBytes) := by
  induction candidates generalizing inner removed removedBytes with
  | zero => exact hcoherent
  | succ candidates ih =>
    rw [removeLruBatchFromClass]
    split
    · exact hcoherent
    split
    · exact hcoherent
    next key metadata holdest =>
    split
    · have hcount : (entries (inner.classLru cls)).length =
          (entries (inner.classLru cls)).length - 1 + 1 := by
        have hlength := length_remove (peek_oldest holdest)
        omega
      rw [hcount]
      refine (removeLru_ends hcoherent holdest).bind ?_
      rintro ⟨_, final⟩ ⟨hleft, block, -, rfl⟩
      exact ih (hleft.coherent hcoherent (peek_oldest holdest)) _ _
    · exact ih (hcoherent.touch cls key) _ _

end DramStoreInner

namespace DramStore

open DramStoreInner

variable {inner : DramStoreInner L}

/-! ### Methods -/

theorem getPrefixBlocks_ends (warming : Bool) (keys : List SeenKey) (hcoherent : inner.Coherent)
    (blocks : List SealedBlock) :
    Ends IsExhaustion (fun result => result.2.Coherent)
      (getPrefixBlocks warming keys inner blocks) := by
  induction keys generalizing inner blocks with
  | nil => exact hcoherent
  | cons seen keys ih =>
    rw [getPrefixBlocks]
    split
    · split
      · exact hcoherent
      · exact ih hcoherent _
    · obtain ⟨cache, hget, hcache⟩ := inner.cache.get_eq seen.1
      have hcoherent' : { inner with cache }.Coherent := hcoherent.withCache hcache
      cases hblock : peek inner.cache.lru seen.1 with
      | none =>
        simp only [hget, hblock]
        exact hcoherent'
      | some block =>
        simp only [hget, hblock]
        refine (retainDemand_ends hcoherent' ((hcache _).trans hblock) seen.2).bind ?_
        rintro middle ⟨hmiddle, -⟩
        obtain ⟨final, hrefresh, hfinal, -⟩ := refreshRecency_ok hmiddle seen.1
        simp only [hrefresh]
        exact ih hfinal _

theorem retainDemands_ends (entries : List (SeenKey × SealedBlock)) (hcoherent : inner.Coherent) :
    Ends IsExhaustion DramStoreInner.Coherent (retainDemand entries inner) := by
  induction entries generalizing inner with
  | nil => exact hcoherent
  | cons entry entries ih =>
    rw [retainDemand]
    split
    case isTrue hblock =>
      refine (retainDemand_ends hcoherent hblock entry.1.2).bind ?_
      rintro middle ⟨hmiddle, -⟩
      exact ih hmiddle
    case isFalse => exact ih hcoherent

theorem batchInsertAs_ends (cls : ResidentClass) (blocks : List (SeenKey × SealedBlock))
    (hcoherent : inner.Coherent) :
    Ends IsExhaustion (fun inner' => inner'.Coherent ∧ inner.Keeps inner')
      (batchInsertAs cls blocks inner) := by
  induction blocks generalizing inner with
  | nil => exact ⟨hcoherent, fun _ _ => id⟩
  | cons entry blocks ih =>
    rw [batchInsertAs]
    refine (insertBlock_ends hcoherent entry.1.1 entry.2 cls entry.1.2).bind ?_
    rintro ⟨_, middle⟩ ⟨hmiddle, hkeeps⟩
    refine (ih hmiddle).mono ?_
    rintro final ⟨hfinal, hkeeps'⟩
    exact ⟨hfinal, fun key block hblock => hkeeps' key block (hkeeps key block hblock)⟩

theorem pinKeys_ok (records : List InventoryRecord) (hcoherent : inner.Coherent)
    (hresident : ∀ record ∈ records, contains inner.cache.lru record.key = true)
    (found : List (StateKey × SealedBlock)) :
    ∃ pinned inner', pinKeys records inner found = .ok (some (found ++ pinned), inner') ∧
      inner'.Coherent ∧ pinned.map Prod.fst = records.map (·.key) ∧
      ∀ entry ∈ pinned, peek inner.cache.lru entry.1 = some entry.2 := by
  induction records generalizing inner found with
  | nil => exact ⟨[], inner, by simp [pinKeys], hcoherent, rfl, nofun⟩
  | cons record records ih =>
    obtain ⟨hfirst, hrest⟩ := List.forall_mem_cons.mp hresident
    obtain ⟨block, hblock⟩ := exists_peek hfirst
    obtain ⟨cache, hget, hcache⟩ := inner.cache.get_eq record.key
    have hcoherent' : { inner with cache }.Coherent := hcoherent.withCache hcache
    obtain ⟨middle, hrefresh, hmiddle, hsame⟩ := refreshRecency_ok hcoherent' record.key
    have hpeek : ∀ key, peek middle.cache.lru key = peek inner.cache.lru key := by
      intro key
      rw [hsame]
      exact hcache key
    have hrest' : ∀ record ∈ records, contains middle.cache.lru record.key = true := by
      intro record hrecord
      rw [contains, hpeek]
      exact hrest record hrecord
    obtain ⟨pinned, final, hpin, hfinal, hkeys, hblocks⟩ :=
      ih hmiddle hrest' (found ++ [(record.key, block)])
    refine ⟨(record.key, block) :: pinned, final, ?_, hfinal, by simp [hkeys], ?_⟩
    · simp only [pinKeys, hget, hblock, hrefresh, bind, Except.bind]
      rw [hpin, List.append_assoc]
      rfl
    · refine List.forall_mem_cons.mpr ⟨hblock, fun entry hentry => ?_⟩
      rw [← hpeek]
      exact hblocks entry hentry

theorem getBlocksAligned_ends (keys : List StateKey) (hcoherent : inner.Coherent) :
    Ends IsExhaustion (fun result => result.2.Coherent)
      (getBlocksAligned keys inner) := by
  induction keys generalizing inner with
  | nil => exact hcoherent
  | cons key keys ih =>
    obtain ⟨cache, hget, hcache⟩ := inner.cache.get_eq key
    have hcoherent' : { inner with cache }.Coherent := hcoherent.withCache hcache
    obtain ⟨middle, hrefresh, hmiddle, -⟩ := refreshRecency_ok hcoherent' key
    rw [getBlocksAligned, hget]
    dsimp only
    split
    · rw [hrefresh]
      exact (ih hmiddle).bind fun _ hlast => hlast
    · exact (ih hcoherent').bind fun _ hlast => hlast

theorem removeLruBatch_ends (batchSize targetBytes : Nat) (strongCount : ResidentClass → Nat → Nat)
    (hcoherent : inner.Coherent) :
    Ends IsExhaustion (fun result => result.2.Coherent)
      (removeLruBatch inner batchSize targetBytes strongCount) := by
  refine (removeLruBatchFromClass_ends _ _ _ _ _ hcoherent _ _).bind ?_
  rintro ⟨first, removed, bytes⟩ hfirst
  refine (removeLruBatchFromClass_ends _ _ _ _ _ hfirst _ _).bind ?_
  rintro ⟨second, removed, bytes⟩ hsecond
  refine (removeLruBatchFromClass_ends _ _ _ _ _ hsecond _ _).bind ?_
  rintro ⟨third, removed, bytes⟩ hthird
  exact hthird

omit [LruMap StateKey L] in
theorem notifyRemoved_ends (inner : DramStoreInner L) (removed : List RemovedResident)
    {keys : StateKey → Prop}
    (hkeys : Advertises inner.inventory keys) :
    Ends IsExhaustion (fun inner' => ∃ inventory, inner' = { inner with inventory } ∧
        Advertises inventory fun key => keys key ∧ ∀ resident ∈ removed, resident.key ≠ key)
      (notifyRemoved removed inner) := by
  induction removed generalizing inner keys with
  | nil => exact ⟨inner.inventory, rfl, hkeys.congr (by simp)⟩
  | cons resident removed ih =>
    have hmedium : ∀ m ∈ (none : Option ReplicaMetadata), m.medium = .dram := nofun
    rw [notifyRemoved]
    refine (notify_ends inner hkeys resident.key hmedium).bind ?_
    rintro _ ⟨inventory, rfl, hadvertised⟩
    refine (ih _ hadvertised).mono ?_
    rintro _ ⟨inventory', rfl, hadvertised'⟩
    refine ⟨inventory', rfl, hadvertised'.congr fun key => ?_⟩
    by_cases heq : key = resident.key
    · simp [heq]
    · simp [heq, Ne.symm heq]

def keys {ν : Type} (cache : L ν) : List StateKey :=
  (entries cache).map Prod.fst

theorem mem_keys {ν : Type} {cache : L ν} {key : StateKey} :
    key ∈ keys cache ↔ contains cache key = true := by
  constructor
  · intro hmem
    obtain ⟨entry, hentry, rfl⟩ := List.mem_map.mp hmem
    exact contains_of_peek (peek_eq_some.mpr hentry)
  · intro hmem
    obtain ⟨value, hvalue⟩ := exists_peek hmem
    exact List.mem_map.mpr ⟨_, peek_eq_some.mp hvalue, rfl⟩

theorem keys_perm (hcoherent : inner.Coherent) :
    (keys inner.cache.lru).Perm
      (keys inner.reclaimable ++ keys inner.probationary ++ keys inner.retained) := by
  have hdisjoint : ∀ key cls cls', cls ≠ cls' → key ∈ keys (inner.classLru cls) →
      key ∉ keys (inner.classLru cls') := by
    intro key cls cls' hne hmem hmem'
    obtain ⟨metadata, hheld⟩ := exists_peek (mem_keys.mp hmem)
    obtain ⟨metadata', hheld'⟩ := exists_peek (mem_keys.mp hmem')
    have hnone := (((hcoherent.placed key).of_held hheld).2 cls').trans (if_neg hne.symm)
    exact absurd (hheld'.symm.trans hnone) (Option.some_ne_none _)
  refine (List.perm_ext_iff_of_nodup (nodup _) ?_).mpr fun key => ?_
  · refine List.nodup_append.mpr ⟨List.nodup_append.mpr ⟨nodup _, nodup _, ?_⟩,
      nodup _, ?_⟩
    · rintro key hmem _ hmem' rfl
      exact hdisjoint key .reclaimable .probationary nofun hmem hmem'
    · rintro key hmem _ hmem' rfl
      rcases List.mem_append.mp hmem with hmem | hmem
      · exact hdisjoint key .reclaimable .retained nofun hmem hmem'
      · exact hdisjoint key .probationary .retained nofun hmem hmem'
  · rw [List.mem_append, List.mem_append]
    constructor
    · intro hmem
      obtain ⟨cls, metadata, hheld⟩ := hcoherent.exists_held (mem_keys.mp hmem)
      have hclass := mem_keys.mpr (contains_of_peek hheld)
      cases cls with
      | reclaimable => exact .inl (.inl hclass)
      | probationary => exact .inl (.inr hclass)
      | retained => exact .inr hclass
    · have hresident : ∀ cls, key ∈ keys (inner.classLru cls) → key ∈ keys inner.cache.lru := by
        intro cls hmem
        obtain ⟨metadata, hheld⟩ := exists_peek (mem_keys.mp hmem)
        exact mem_keys.mpr (hcoherent.contains_of_held hheld)
      rintro ((hmem | hmem) | hmem)
      · exact hresident .reclaimable hmem
      · exact hresident .probationary hmem
      · exact hresident .retained hmem

theorem mem_foldl_erase (removed : List RemovedResident)
    (metadata : ExtTreeMap StateKey ResidentMetadata) (key : StateKey) :
    key ∈ removed.foldl (fun metadata resident => metadata.erase resident.key) metadata ↔
      key ∈ metadata ∧ ∀ resident ∈ removed, resident.key ≠ key := by
  induction removed generalizing metadata with
  | nil => simp
  | cons resident removed ih =>
    rw [List.foldl_cons, ih, ExtTreeMap.mem_erase, ne_eq, Std.compare_eq_iff_eq,
      List.forall_mem_cons]
    tauto

theorem removeAll_ends (hcoherent : inner.Coherent) :
    Ends IsExhaustion (fun result => result.2.Coherent) (removeAll inner) := by
  have hperm := keys_perm hcoherent
  generalize hremoved : (entries inner.cache.lru).map
    (fun entry => (⟨entry.1, entry.2⟩ : RemovedResident)) = removed
  generalize hmetadata : ExtTreeMap.ofList
    (entries inner.reclaimable ++ entries inner.probationary ++ entries inner.retained) = metadata
  have hkeys : removed.map (·.key) = keys inner.cache.lru := by
    rw [← hremoved, List.map_map]
    rfl
  have hmem : ∀ key, key ∈ metadata ↔ key ∈ removed.map (·.key) := by
    intro key
    rw [hkeys, hperm.mem_iff, ← hmetadata, ExtTreeMap.mem_ofList, List.contains_iff_mem,
      List.map_append, List.map_append]
    rfl
  have hall : (removed.all fun resident => metadata.contains resident.key) = true := by
    refine List.all_eq_true.mpr fun resident hresident => ?_
    exact (hmem _).mpr (List.mem_map_of_mem hresident)
  have hlength : removed.length = (entries inner.reclaimable).length +
      (entries inner.probationary).length + (entries inner.retained).length := by
    have hsame := hperm.length_eq
    simp only [keys, List.length_append, List.length_map] at hsame
    rw [← hremoved, List.length_map, hsame]
  have hleft : (removed.foldl (fun metadata resident => metadata.erase resident.key)
      metadata).isEmpty = true := by
    refine ExtTreeMap.isEmpty_iff.mpr (ExtTreeMap.eq_empty_iff_forall_not_mem.mpr fun key hkey => ?_)
    obtain ⟨hkey, hnone⟩ := (mem_foldl_erase removed metadata key).mp hkey
    obtain ⟨resident, hresident, heq⟩ := List.mem_map.mp ((hmem key).mp hkey)
    exact hnone resident hresident heq
  simp only [removeAll, hremoved, hmetadata, hall, debugAssert_of_true, hlength, hleft,
    decide_true]
  refine (notifyRemoved_ends { inner with
    cache := { inner.cache with lru := empty }
    reclaimable := empty
    probationary := empty
    retained := empty } removed hcoherent.advertised).bind ?_
  rintro _ ⟨inventory, rfl, hadvertised⟩
  refine ⟨⟨fun key => ?_, ?_, hadvertised.congr fun key => ?_⟩, fun _ => Nat.zero_le _⟩
  · dsimp only
    rw [peek_empty]
    rintro (_ | _ | _) <;> exact peek_empty
  · exact (total_empty _).symm
  · refine iff_of_false (fun hboth => ?_) (by simp [contains])
    rw [← mem_keys, ← hkeys] at hboth
    obtain ⟨resident, hresident, heq⟩ := List.mem_map.mp hboth.1
    exact hboth.2 resident hresident heq

theorem pinResidencies_ok (hcoherent : inner.Coherent) {inventory : Inventory}
    (hinventory : inventory ∈ inner.inventory) {records : List InventoryRecord} (hne : records ≠ [])
    (hmatch : ∀ record ∈ records, inventory.containsRecord record .dram = true) :
    ∃ pinned inner', pinResidencies inner records = .ok (some pinned, inner') ∧ inner'.Coherent ∧
      pinned.map Prod.fst = records.map (·.key) ∧
      ∀ entry ∈ pinned, peek inner.cache.lru entry.1 = some entry.2 := by
  have hresident : ∀ record ∈ records, contains inner.cache.lru record.key = true := by
    intro record hrecord
    have hcontains := hmatch record hrecord
    simp only [Inventory.containsRecord, Bool.and_eq_true] at hcontains
    refine ((hcoherent.advertised inventory hinventory).2 record.key).mp ?_
    exact ExtTreeMap.mem_iff_isSome_getElem?.mpr (Option.isSome_of_any hcontains.2)
  obtain ⟨pinned, inner', hpin, hfinal, hkeys, hblocks⟩ := pinKeys_ok records hcoherent hresident []
  refine ⟨pinned, inner', ?_, hfinal, hkeys, hblocks⟩
  rw [pinResidencies, Option.mem_def.mp hinventory]
  have hall : records.all (inventory.containsRecord · .dram) = true := List.all_eq_true.mpr hmatch
  simpa [hne, hall] using hpin

theorem pinResidencies_none {records : List InventoryRecord}
    (hfail : ¬∃ inventory ∈ inner.inventory, records ≠ [] ∧
      ∀ record ∈ records, inventory.containsRecord record .dram = true) :
    pinResidencies inner records = .ok (none, inner) := by
  rw [pinResidencies]
  cases hinventory : inner.inventory with
  | none => rfl
  | some inventory =>
    refine if_pos ?_
    by_contra hnot
    refine hfail ⟨inventory, hinventory, ?_⟩
    simpa using hnot

end DramStore

/-! ### Runs -/

namespace DramStoreInner

variable {inner : DramStoreInner L}

theorem coherent_of_isNew (hnew : inner.IsNew) : inner.Coherent := by
  obtain ⟨optimalParas, hasher, capacityBytes, enableLfuAdmission, hint, journalBytes, limit, debug,
    rfl⟩ := hnew
  refine ⟨⟨fun key => ?_, ?_, ?_⟩, fun _ => Nat.zero_le _⟩
  · simp only [withInventory, TinyLfuCache.newUnbounded, peek_empty]
    rintro (_ | _ | _) <;> exact peek_empty
  · exact (total_empty _).symm
  · intro inventory hinventory
    obtain ⟨byteLimit, -, rfl⟩ := Option.map_eq_some_iff.mp hinventory
    refine ⟨Inventory.described_new byteLimit, fun key => ?_⟩
    simp [Inventory.new, withInventory, TinyLfuCache.newUnbounded, contains]

theorem next_ends (hcoherent : inner.Coherent) (call : DramCall) :
    Ends IsExhaustion Coherent (inner.next call) := by
  cases call with
  | batchInsert blocks => exact (batchInsertAs_ends _ blocks hcoherent).mono fun _ => And.left
  | batchInsertReclaimable blocks =>
    exact (batchInsertAs_ends _ blocks hcoherent).mono fun _ => And.left
  | retainDemand entries => exact retainDemands_ends entries hcoherent
  | getPrefixBlocks keys warming =>
    exact (getPrefixBlocks_ends warming keys hcoherent []).map fun _ => id
  | getBlocksAligned keys => exact (getBlocksAligned_ends keys hcoherent).map fun _ => id
  | pinResidencies records =>
    by_cases hmatch : ∃ inventory ∈ inner.inventory, records ≠ [] ∧
        ∀ record ∈ records, inventory.containsRecord record .dram = true
    · obtain ⟨inventory, hinventory, hne, hall⟩ := hmatch
      obtain ⟨pinned, inner', hpin, hfinal, -, -⟩ := pinResidencies_ok hcoherent hinventory hne hall
      rw [next, hpin]
      exact hfinal
    · rw [next, pinResidencies_none hmatch]
      exact hcoherent
  | removeLruBatch batchSize targetBytes strongCount =>
    exact (removeLruBatch_ends batchSize targetBytes strongCount hcoherent).map fun _ => id
  | removeAll => exact (removeAll_ends hcoherent).map fun _ => id
  | ssd key stored =>
    cases hinventory : inner.inventory with
    | none =>
      simp only [next, hinventory]
      exact hcoherent
    | some inventory =>
      obtain ⟨hdescribed, hresidents⟩ := hcoherent.advertised inventory hinventory
      have hstored : ReplicaMedium.isStored .ssd = true := rfl
      simp only [next, hinventory]
      generalize hmetadata : Option.map _ stored = metadata
      have hmedium : ∀ m ∈ metadata, m.medium = .ssd := by
        intro m hm
        rw [← hmetadata] at hm
        obtain ⟨_, -, rfl⟩ := Option.map_eq_some_iff.mp hm
        rfl
      rcases Inventory.change_cases hdescribed key hstored hmedium with
        hexhausted | ⟨inventory', hok, hdescribed', hresidents'⟩
      · simp only [hexhausted]
        exact .inr rfl
      · simp only [hok]
        refine ⟨⟨hcoherent.placed, hcoherent.counted, ?_⟩, hcoherent.bounded⟩
        rintro _ ⟨⟩
        refine ⟨hdescribed', fun other => ?_⟩
        rw [hresidents', if_neg (by simp)]
        exact hresidents other

theorem coherent_of_reachable (hreach : dramMachine.Reachable inner) : inner.Coherent := by
  refine hreach.invariant (I := Coherent) (fun _ => coherent_of_isNew) fun s call t hs hstep => ?_
  have hends := next_ends hs call
  cases hresult : s.next call with
  | error panic =>
    have hnone : (s.next call).toOption = some t := hstep
    rw [hresult] at hnone
    cases hnone
  | ok result =>
    have hsome : (s.next call).toOption = some t := hstep
    rw [hresult] at hsome hends
    cases hsome
    exact hends

theorem retainedBytes_eq_sum (hcoherent : inner.Coherent) :
    inner.retainedBytes = ((entries inner.retained).map fun entry =>
      ((inner.cache.peek entry.1).map (·.memoryFootprint)).getD 0).sum := by
  rw [hcoherent.counted, total]
  refine congrArg List.sum (List.map_congr_left fun entry hentry => ?_)
  have hheld : inner.held entry.1 .retained = some entry.2 := peek_eq_some.mpr hentry
  obtain ⟨⟨block, hblock, hbytes⟩, -⟩ := (hcoherent.placed entry.1).of_held hheld
  simp [TinyLfuCache.peek, hblock, hbytes, SealedBlock.memoryFootprint]

end DramStoreInner

/-- **Coherence of the DRAM store.** In every reachable state the residents are the disjoint union
of the classes and exactly what the inventory records for DRAM; the counter is the sum of the
retained footprints and respects the limit; insertions overwrite nothing; a call stops only when a
64-bit counter is exhausted; and a pin succeeds, with one block per record in order, exactly if the
request is not empty and every record matches, and else leaves the store alone. -/
theorem dram_coherent {inner : DramStoreInner L} (hreach : dramMachine.Reachable inner) :
    ((∀ cls key, contains (inner.classLru cls) key = true → inner.cache.containsKey key = true) ∧
      ∀ key, inner.cache.containsKey key = true →
        ∃! cls, contains (inner.classLru cls) key = true) ∧
    (∀ inventory ∈ inner.inventory, ∀ key,
      (key, ReplicaMedium.dram) ∈ inventory.residents ↔ inner.cache.containsKey key = true) ∧
    inner.retainedBytes = ((entries inner.retained).map fun entry =>
      ((inner.cache.peek entry.1).map (·.memoryFootprint)).getD 0).sum ∧
    (0 < inner.protectedLimit → inner.retainedBytes ≤ inner.protectedLimit) ∧
    (∀ cls blocks inner', batchInsertAs cls blocks inner = .ok inner' →
      ∀ key block, inner.cache.peek key = some block → inner'.cache.peek key = some block) ∧
    (∀ call panic, inner.next call = .error panic →
      panic = .bytesOverflow ∨ panic = .inventory .sequenceExhausted) ∧
    (∀ inventory ∈ inner.inventory, ∀ records, records ≠ [] →
      (∀ record ∈ records, inventory.containsRecord record .dram = true) →
        ∃ pinned inner', pinResidencies inner records = .ok (some pinned, inner') ∧
          pinned.map Prod.fst = records.map (·.key) ∧
          ∀ entry ∈ pinned, inner.cache.peek entry.1 = some entry.2) ∧
    ∀ records, (¬∃ inventory ∈ inner.inventory, records ≠ [] ∧
        ∀ record ∈ records, inventory.containsRecord record .dram = true) →
      pinResidencies inner records = .ok (none, inner) := by
  have hcoherent := DramStoreInner.coherent_of_reachable hreach
  refine ⟨⟨fun cls key hmem => ?_, fun key hmem => ?_⟩, fun inventory hinventory => ?_,
    retainedBytes_eq_sum hcoherent, hcoherent.bounded,
    fun cls blocks inner' hok => ?_, fun call panic herror => ?_,
    fun inventory hinventory records hne hmatch => ?_, fun records => pinResidencies_none⟩
  · obtain ⟨metadata, hheld⟩ := exists_peek hmem
    exact hcoherent.contains_of_held hheld
  · obtain ⟨cls, metadata, hheld⟩ := hcoherent.exists_held hmem
    exact ⟨cls, contains_of_peek hheld, fun other =>
      hcoherent.class_unique (contains_of_peek hheld)⟩
  · exact (hcoherent.advertised inventory hinventory).2
  · exact ((batchInsertAs_ends cls blocks hcoherent).of_ok hok).2
  · exact (next_ends hcoherent call).of_error herror
  · obtain ⟨pinned, inner', hpin, -, hkeys, hblocks⟩ :=
      pinResidencies_ok hcoherent hinventory hne hmatch
    exact ⟨pinned, inner', hpin, hkeys, hblocks⟩

def servedKey (name : UInt8) : StateKey := ⟨"model", [name]⟩

def servedBlock (pointer footprint : Nat) : SealedBlock := ⟨pointer, [⟨none, [], footprint⟩], footprint⟩

/-- Three blocks of 40 bytes under a limit of 100: the third demand demotes the first block. -/
def servedCalls : List DramCall :=
  [.batchInsert [((servedKey 1, false), servedBlock 1 40), ((servedKey 2, false), servedBlock 2 40),
      ((servedKey 3, false), servedBlock 3 40)],
    .getPrefixBlocks [(servedKey 1, false), (servedKey 2, false), (servedKey 3, false)] false,
    .removeLruBatch 1 40 fun _ _ => 1]

def servedStore : DramStoreInner (LruList StateKey) :=
  withInventory (.newUnbounded (fun _ => (16, 2)) (fun _ _ => 0) 0 false none)
    (some (.new 4096)) 100 true

theorem servedStore_isNew : servedStore.IsNew :=
  ⟨fun _ => (16, 2), fun _ _ => 0, 0, false, none, some 4096, 100, true, rfl⟩

theorem dram_coherent_served :
    ∃ inner : DramStoreInner (LruList StateKey), dramMachine.Reachable inner ∧
      inner.retained.entries.map Prod.fst = [servedKey 2, servedKey 3] ∧
      inner.cache.lru.entries.map Prod.fst = [servedKey 2, servedKey 3] ∧
      inner.retainedBytes = (inner.retained.entries.map fun entry =>
        ((inner.cache.peek entry.1).map (·.memoryFootprint)).getD 0).sum := by
  have hrun : (servedCalls.foldlM
      (fun (inner : DramStoreInner (LruList StateKey)) call => (inner.next call).toOption)
      servedStore).any (fun inner =>
        inner.retained.entries.map Prod.fst = [servedKey 2, servedKey 3] ∧
        inner.cache.lru.entries.map Prod.fst = [servedKey 2, servedKey 3]) = true := by
    decide +kernel
  obtain ⟨inner, hreach, hretained, hcache⟩ :=
    dramMachine.exists_reachable rfl servedStore_isNew hrun
  exact ⟨inner, hreach, hretained, hcache, (dram_coherent hreach).2.2.1⟩

/-- An empty request is refused although each of its records matches. -/
theorem pinResidencies_empty_refused :
    ∃ (inner : DramStoreInner (LruList StateKey)) (inventory : Inventory),
      dramMachine.Reachable inner ∧ inventory ∈ inner.inventory ∧
      (∀ record ∈ ([] : List InventoryRecord), inventory.containsRecord record .dram = true) ∧
      pinResidencies inner [] = .ok (none, inner) :=
  ⟨servedStore, .new 4096, .of_init servedStore_isNew, rfl, nofun, rfl⟩

end OrbitKV
