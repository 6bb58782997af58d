import OrbitKV.Proof.CacheMessages

/-!
# The requests with lists

The sum that an encoder checks is the length of the wire image, so it refuses on that account only
what could not be allocated.
-/

namespace OrbitKV

open Decoder Scan

def sizedWire (value : Bytes) : Bytes :=
  leBytes 4 value.length ++ value

@[simp]
theorem length_sizedWire (value : Bytes) : (sizedWire value).length = 4 + value.length := by
  simp [sizedWire]

/-! ### Restores -/

namespace RestoreRequest

variable (group : List String) (load : RestoreLease)

def groupWire : Bytes :=
  leBytes 4 group.length ++ group.flatMap fun layer => sizedWire (asBytes layer)

def targetWire (target : Option UInt32) : Bytes :=
  leBytes 4 (target.getD noTarget).toNat

def targetsWire (targets : List (Option UInt32)) : Bytes :=
  leBytes 4 targets.length ++ targets.flatMap targetWire

def loadWire : Bytes :=
  sizedWire load.lease ++
    (leBytes 4 load.blockIdsByGroup.length ++ load.blockIdsByGroup.flatMap targetsWire)

def wire (request : RestoreRequest) : Bytes :=
  [leBytes 4 restoreRequestMagic.toNat, leBytes 2 cacheProtocolVersion.toNat,
    leBytes 2 (0 : UInt16).toNat, leBytes 4 request.tpRank.toNat,
    leBytes 4 request.deviceId.toUInt32.toNat, leBytes 4 (asBytes request.instanceId).length,
    leBytes 4 request.layerGroups.length, leBytes 4 request.loads.length,
    asBytes request.instanceId, request.layerGroups.flatMap groupWire,
    request.loads.flatMap loadWire].flatten

def GroupFits : Prop :=
  group.length < 2 ^ 32 ∧ ∀ layer ∈ group, (asBytes layer).length < 2 ^ 32

def LoadFits : Prop :=
  load.lease.length < 2 ^ 32 ∧ load.blockIdsByGroup.length < 2 ^ 32 ∧
    ∀ targets ∈ load.blockIdsByGroup, targets.length < 2 ^ 32

structure Fits (request : RestoreRequest) : Prop where
  instanceId : (asBytes request.instanceId).length < 2 ^ 32
  groupCount : request.layerGroups.length < 2 ^ 32
  loadCount : request.loads.length < 2 ^ 32
  groups : ∀ group ∈ request.layerGroups, GroupFits group
  loads : ∀ load ∈ request.loads, LoadFits load

/-- The decoder refuses an empty lease and reads the mark of a missing target as none. -/
def LoadValid : Prop :=
  LoadFits load ∧ load.lease.length ≠ 0 ∧
    ∀ targets ∈ load.blockIdsByGroup, ∀ target ∈ targets, target ≠ some noTarget

def Valid (request : RestoreRequest) : Prop :=
  request.Fits ∧ ∀ load ∈ request.loads, LoadValid load

theorem reads_layerDecoder :
    Reads layerDecoder (fun layer => (asBytes layer).length < 2 ^ 32)
      (fun layer => sizedWire (asBytes layer)) := by
  intro c layer c'
  simp [-StateT.run_bind, layerDecoder, sizedWire, and_assoc]

theorem reads_groupDecoder : Reads groupDecoder GroupFits groupWire :=
  reads_counted reads_layerDecoder (by decide) (fun _ _ => by simp) (by decide)

theorem reads_targetDecoder :
    Reads targetDecoder (fun target => target ≠ some noTarget) targetWire := by
  intro c target c'
  simp only [targetDecoder, run_bind_eq_ok, run_u32, run_pure_eq_ok, targetWire]
  constructor
  · rintro ⟨value, _, htakes, rfl, rfl⟩
    split_ifs with hvalue
    · exact ⟨fun h => hvalue (Option.some.inj h), htakes⟩
    · rw [ne_eq, not_not] at hvalue
      exact ⟨Option.some_ne_none _ |>.symm, by rwa [hvalue] at htakes⟩
  · rintro ⟨hne, htakes⟩
    refine ⟨_, c', htakes, ?_, rfl⟩
    cases target with
    | none => rfl
    | some value => exact (if_pos fun h : value = noTarget => hne (congrArg some h)).symm

theorem reads_targetsDecoder :
    Reads targetsDecoder
      (fun targets => targets.length < 2 ^ 32 ∧ ∀ target ∈ targets, target ≠ some noTarget)
      targetsWire :=
  reads_counted reads_targetDecoder (by decide) (fun _ _ => by simp [targetWire]) (by decide)

theorem reads_loadDecoder : Reads loadDecoder LoadValid loadWire := by
  rintro c ⟨lease, targets⟩ c'
  simp only [loadDecoder, run_bind_eq_ok, reads_sized _ _ _, run_rejectIf_eq_ok, run_usizeU32,
    run_list reads_targetsDecoder (by decide : 0 < 4) (fun _ _ => by simp [targetsWire])
      (by decide : 24 ≤ 72), run_pure_eq_ok, loadWire, sizedWire, Cursor.takes_append]
  simp [and_assoc, ← exists_and_right]
  constructor
  · rintro ⟨hlease, c₂, c₁, hlen, htakes, hne, hcount, hvalid, hgroups⟩
    exact ⟨⟨⟨hlease, hcount, fun targets h => (hvalid targets h).1⟩, by simpa using hne,
      fun targets h => (hvalid targets h).2⟩, c₂, c₁, hlen, htakes, hgroups⟩
  · rintro ⟨⟨⟨hlease, hcount, hfits⟩, hne, hvalid⟩, c₂, c₁, hlen, htakes, hgroups⟩
    exact ⟨hlease, c₂, c₁, hlen, htakes, by simpa using hne, hcount,
      fun targets h => ⟨hfits targets h, hvalid targets h⟩, hgroups⟩

theorem decodes : Decodes decode Valid wire := by
  apply Scan.ReadsAll.decodes
  rintro c ⟨instanceId, tpRank, deviceId, groups, loads⟩ c'
  simp [-StateT.run_bind, -StateT.run_pure, -bind_pure_comp, decoder,
    run_list reads_groupDecoder (by decide : 0 < 4) (fun _ _ => by simp [groupWire])
      (by decide : 24 ≤ 72),
    run_list reads_loadDecoder (by decide : 0 < 8) (fun _ _ => by simp [loadWire]; omega)
      (by decide : 48 ≤ 72),
    wire, and_assoc, ← exists_and_right]
  constructor
  · rintro ⟨hinstance, hgroupCount, hgroups, hloadCount, hloads, htakes⟩
    exact ⟨⟨⟨hinstance, hgroupCount, hloadCount, hgroups, fun load h => (hloads load h).1⟩, hloads⟩,
      htakes⟩
  · rintro ⟨⟨hfits, hloads⟩, htakes⟩
    exact ⟨hfits.instanceId, hfits.groupCount, hfits.groups, hfits.loadCount, hloads, htakes⟩

theorem grows_groupSize :
    Grows (fun size => groupSize size group) True (groupWire group).length := by
  have hlayer : ∀ layer ∈ group, Grows (fun size => addEncodedSize size 1 4 >>= fun size =>
      addEncodedSize size (asBytes layer).length 1) (True ∧ True)
        (1 * 4 + (asBytes layer).length * 1) := fun layer _ =>
    (grows_addEncodedSize 1 4).bind (grows_addEncodedSize _ 1)
  refine ((grows_addEncodedSize 1 4).bind (Grows.foldlM group hlayer)).congr (by simp) ?_
  simp [groupWire, List.length_flatMap]

theorem grows_loadSize : Grows (fun size => loadSize size load) True (loadWire load).length := by
  have htargets : ∀ targets ∈ load.blockIdsByGroup, Grows (fun size =>
      addEncodedSize size 1 4 >>= fun size => addEncodedSize size targets.length 4) (True ∧ True)
        (1 * 4 + targets.length * 4) := fun targets _ =>
    (grows_addEncodedSize 1 4).bind (grows_addEncodedSize _ 4)
  refine ((grows_addEncodedSize 1 8).bind ((grows_addEncodedSize _ 1).bind
    (Grows.foldlM _ htargets))).congr (by simp) ?_
  simp [loadWire, targetsWire, targetWire, List.length_flatMap]
  omega

theorem encodedSize_eq_ok {request : RestoreRequest} {size : Nat} :
    request.encodedSize = .ok size ↔ size = request.wire.length ∧ request.wire.length ≤ isizeMax := by
  have hgroups : ∀ group ∈ request.layerGroups, Grows (fun size => groupSize size group) True
      (groupWire group).length := fun group _ => grows_groupSize group
  have hloads : ∀ load ∈ request.loads, Grows (fun size => loadSize size load) True
      (loadWire load).length := fun load _ => grows_loadSize load
  have hgrows := (grows_addEncodedSize (asBytes request.instanceId).length 1).bind
    ((Grows.foldlM _ hgroups).bind (Grows.foldlM _ hloads))
  have hlength : request.wire.length = restoreHeaderBytes + ((asBytes request.instanceId).length * 1 +
      ((request.layerGroups.map fun group => (groupWire group).length).sum +
        (request.loads.map fun load => (loadWire load).length).sum)) := by
    simp only [wire, List.length_flatten, List.map_cons, List.map_nil, List.sum_cons, List.sum_nil,
      length_leBytes, List.length_flatMap, restoreHeaderBytes]
    omega
  have hok := hgrows.eq_ok hlength (by unfold restoreHeaderBytes isizeMax; omega) size
  simp only [implies_true, and_self, true_and] at hok
  exact hok

theorem appends_encodeGroup :
    Appends (fun bytes => encodeGroup bytes group) (GroupFits group) (groupWire group) := by
  have hlayers := Appends.foldlM group fun layer _ => appends_pushBytes (asBytes layer) "layer_name"
  intro b b'
  simp only [encodeGroup, bind_eq_ok_iff, checkedU32_eq_ok, hlayers _ _, pushU32, GroupFits, groupWire,
    sizedWire]
  simp [and_assoc]

theorem appends_encodeTargets (targets : List (Option UInt32)) :
    Appends (fun bytes => encodeTargets bytes targets) (targets.length < 2 ^ 32)
      (targetsWire targets) := by
  have hpush : ∀ b : Bytes, targets.foldl (fun bytes target => pushU32 bytes (target.getD noTarget)) b
      = b ++ targets.flatMap targetWire := foldl_append_flatMap (fun _ _ => rfl) _
  intro b b'
  simp only [encodeTargets, bind_eq_ok_iff, checkedU32_eq_ok, hpush, pure_eq_ok, targetsWire]
  simp [pushU32]

theorem appends_encodeLoad :
    Appends (fun bytes => encodeLoad bytes load) (LoadFits load) (loadWire load) := by
  have hlease := appends_pushBytes load.lease "lease"
  have htargets := Appends.foldlM load.blockIdsByGroup
    fun targets _ => appends_encodeTargets targets
  intro b b'
  simp only [encodeLoad, bind_eq_ok_iff, hlease _ _, checkedU32_eq_ok, htargets _ _, pushU32, LoadFits,
    loadWire, sizedWire]
  simp [and_assoc]

theorem encodes : Encodes encode Fits wire := by
  intro request b
  have hgroups := Appends.foldlM request.layerGroups fun group _ => appends_encodeGroup group
  have hloads := Appends.foldlM request.loads fun load _ => appends_encodeLoad load
  simp only [encode, bind_eq_ok_iff, encodedSize_eq_ok, withCapacity_eq_ok, checkedU32_eq_ok,
    hgroups _ _, hloads _ _, Nat.one_mul]
  simp [wire, pushU32, pushU16, pushI32]
  constructor
  · rintro ⟨hsize, hinstance, hgroupCount, hloadCount, hgroupsFit, hloadsFit, hb⟩
    exact ⟨⟨hinstance, hgroupCount, hloadCount, hgroupsFit, hloadsFit⟩, hsize, hb⟩
  · rintro ⟨hfits, hsize, hb⟩
    exact ⟨hsize, hfits.instanceId, hfits.groupCount, hfits.loadCount, hfits.groups, hfits.loads, hb⟩

end RestoreRequest

/-! ### Publications -/

namespace PublishRequest

def blockWire (block : UInt32 × Bytes) : Bytes :=
  leBytes 4 block.1.toNat ++ sizedWire block.2

def layerWire (layer : PublishLayer) : Bytes :=
  [leBytes 4 (asBytes layer.layerName).length, leBytes 4 layer.blockIds.length,
    asBytes layer.layerName, (layer.blockIds.zip layer.blockHashes).flatMap blockWire].flatten

def wire (request : PublishRequest) : Bytes :=
  [leBytes 4 publishRequestMagic.toNat, leBytes 2 cacheProtocolVersion.toNat,
    leBytes 2 (0 : UInt16).toNat, leBytes 4 request.tpRank.toNat, leBytes 4 request.ppRank.toNat,
    leBytes 4 request.deviceId.toUInt32.toNat, leBytes 4 (asBytes request.instanceId).length,
    leBytes 4 request.layers.length, request.registrationGeneration.toList,
    asBytes request.instanceId, request.layers.flatMap layerWire].flatten

structure LayerValid (layer : PublishLayer) : Prop where
  shape : layer.blockIds.length = layer.blockHashes.length
  name : (asBytes layer.layerName).length < 2 ^ 32
  count : layer.blockIds.length < 2 ^ 32
  hashes : ∀ hash ∈ layer.blockHashes, hash.length < 2 ^ 32

structure Valid (request : PublishRequest) : Prop where
  generation : request.registrationGeneration ≠ .replicate 16 0
  instanceId : (asBytes request.instanceId).length < 2 ^ 32
  count : request.layers.length < 2 ^ 32
  layers : ∀ layer ∈ request.layers, LayerValid layer

theorem validatePublishLayers_eq_ok {layers : List PublishLayer} {u : Unit} :
    validatePublishLayers layers = .ok u ↔
      ∀ layer ∈ layers, layer.blockIds.length = layer.blockHashes.length := by
  induction layers with
  | nil => simp [validatePublishLayers, pure, Except.pure]
  | cons layer layers ih =>
    unfold validatePublishLayers at ih ⊢
    rw [List.forM, bind_eq_ok_iff, List.forall_mem_cons]
    simp only [failIf_eq_ok, ne_eq, not_not, ih, exists_const]

theorem generationOf_eq_ok {raw : Bytes} {generation : Vector UInt8 16} :
    generationOf raw = .ok generation ↔ raw = generation.toList := by
  unfold generationOf
  constructor
  · intro hok
    split_ifs at hok with hlen
    · cases hok
      rfl
    · cases hok
  · rintro rfl
    have hlen : generation.toList.length = 16 := generation.length_toList
    rw [dif_pos hlen]
    congr 1

theorem reads_blockDecoder :
    Reads blockDecoder (fun block => block.2.length < 2 ^ 32) blockWire := by
  rintro c ⟨blockId, hash⟩ c'
  simp [-StateT.run_bind, -StateT.run_pure, -bind_pure_comp, blockDecoder, reads_sized _ _ _, blockWire,
    sizedWire, and_assoc]

theorem forall_mem_zip {ids : List UInt32} {hashes : List Bytes} (hshape : ids.length = hashes.length) :
    (∀ block ∈ ids.zip hashes, block.2.length < 2 ^ 32) ↔ ∀ hash ∈ hashes, hash.length < 2 ^ 32 := by
  have hsnd : (ids.zip hashes).map Prod.snd = hashes := List.map_snd_zip hshape.ge
  rw [← List.forall_mem_map (P := fun hash : Bytes => hash.length < 2 ^ 32), hsnd]

theorem reads_layerDecoder : Reads layerDecoder LayerValid layerWire := by
  rintro c ⟨name, blockIds, blockHashes⟩ c'
  simp [-StateT.run_bind, -StateT.run_pure, -bind_pure_comp, layerDecoder,
    run_vec reads_blockDecoder (by decide : 24 ≤ 72), layerWire, and_assoc]
  constructor
  · rintro ⟨hname, c₁, hnameLen, c₂, c₃, blocks, hcount, htakes, -, -, hshort, hvalid, hlist, rfl, rfl⟩
    have hzip : (blocks.map (·.1)).zip (blocks.map (·.2)) = blocks := by
      simp [List.zip_map']
    refine ⟨⟨by simp, hname, by simpa using hshort, ?_⟩, c₁, hnameLen, c₂, by simpa using hcount, c₃,
      htakes, by rwa [hzip]⟩
    intro hash hhash
    obtain ⟨block, hblock, rfl⟩ := List.mem_map.mp hhash
    exact hvalid _ _ hblock
  · rintro ⟨hvalid, c₁, hnameLen, c₂, hcount, c₃, htakes, hlist⟩
    have hshape : blockIds.length = blockHashes.length := hvalid.shape
    have hshort : blockIds.length < 2 ^ 32 := hvalid.count
    have hlength : (blockIds.zip blockHashes).length = blockIds.length := by
      rw [List.length_zip, ← hshape, Nat.min_self]
    have hblocks : ∀ block ∈ blockIds.zip blockHashes, block.2.length < 2 ^ 32 :=
      (forall_mem_zip hshape).mpr hvalid.hashes
    have hbytes : 8 * (blockIds.zip blockHashes).length ≤
        ((blockIds.zip blockHashes).flatMap blockWire).length :=
      length_flatMap_le (fun block _ => by simp [blockWire]; omega) hblocks
    have hremaining := hlist.remaining_eq
    refine ⟨hvalid.name, c₁, hnameLen, c₂, c₃, blockIds.zip blockHashes, ?_, htakes, ?_, ?_, ?_,
      fun _ _ => hblocks _, hlist, ?_, ?_⟩
    · rwa [hlength]
    · omega
    · unfold isizeMax
      omega
    · omega
    · rw [List.map_fst_zip hshape.le]
    · rw [List.map_snd_zip hshape.ge]

theorem decodes : Decodes decode Valid wire := by
  apply Scan.ReadsAll.decodes
  rintro c ⟨instanceId, generation, tpRank, ppRank, deviceId, layers⟩ c'
  simp [-StateT.run_bind, -StateT.run_pure, -bind_pure_comp, decoder, generationOf_eq_ok,
    validatePublishLayers_eq_ok,
    run_list reads_layerDecoder (by decide : 0 < 8) (fun _ _ => by simp [layerWire]; omega)
      (by decide : 72 ≤ 72),
    wire, and_assoc, ← exists_and_right]
  constructor
  · rintro ⟨hgeneration, hinstance, hcount, hlayers, -, htakes⟩
    exact ⟨⟨hgeneration, hinstance, hcount, hlayers⟩, htakes⟩
  · rintro ⟨hvalid, htakes⟩
    exact ⟨hvalid.generation, hvalid.instanceId, hvalid.count, hvalid.layers,
      fun layer hlayer => (hvalid.layers layer hlayer).shape, htakes⟩

theorem sliceBlocks_all {α : Type} {blocks : List α} {count : Nat} (hcount : count = blocks.length) :
    sliceBlocks blocks ⟨0, count⟩ = .ok blocks := by
  rw [sliceBlocks, if_pos ⟨Nat.zero_le _, hcount.le⟩]
  simp [hcount]

theorem exists_checkedU32_eq_ok (value : Nat) (field : String) :
    (∃ word, checkedU32 value field = .ok word) ↔ value < 2 ^ 32 := by
  simp only [checkedU32_eq_ok, exists_and_left, exists_eq, and_true]

theorem length_flatMap_blockWire (blocks : List (UInt32 × Bytes)) :
    (blocks.flatMap blockWire).length =
      blocks.length * 8 + ((blocks.map Prod.snd).map fun hash => hash.length).sum := by
  induction blocks with
  | nil => rfl
  | cons block blocks ih =>
    simp only [List.flatMap_cons, List.length_append, ih, List.length_cons, List.map_cons,
      List.sum_cons, blockWire, length_leBytes, length_sizedWire]
    omega

theorem grows_layerSize {layer : PublishLayer}
    (hshape : layer.blockIds.length = layer.blockHashes.length) :
    Grows (fun size => layerSize none size layer) (LayerValid layer) (layerWire layer).length := by
  have hhash : ∀ hash ∈ layer.blockHashes, Grows (fun size =>
      checkedU32 hash.length "block_hash" >>= fun _ => addEncodedSize size hash.length 1)
        (hash.length < 2 ^ 32 ∧ True) (hash.length * 1) := fun hash _ =>
    Grows.check (exists_checkedU32_eq_ok _ _) (grows_addEncodedSize _ 1)
  have hgrows := Grows.check (exists_checkedU32_eq_ok (asBytes layer.layerName).length "layer_name")
    (Grows.check (exists_checkedU32_eq_ok layer.blockIds.length "block_ids")
      ((grows_addEncodedSize 1 8).bind ((grows_addEncodedSize (asBytes layer.layerName).length 1).bind
        ((grows_addEncodedSize layer.blockIds.length 8).bind (Grows.foldlM _ hhash)))))
  have hsize : ∀ size, layerSize none size layer =
      (checkedU32 (asBytes layer.layerName).length "layer_name" >>= fun _ =>
        checkedU32 layer.blockIds.length "block_ids" >>= fun _ =>
        addEncodedSize size 1 8 >>= fun size =>
        addEncodedSize size (asBytes layer.layerName).length 1 >>= fun size =>
        addEncodedSize size layer.blockIds.length 8 >>= fun size =>
        layer.blockHashes.foldlM (fun size hash =>
          checkedU32 hash.length "block_hash" >>= fun _ => addEncodedSize size hash.length 1)
            size) := by
    intro size
    simp only [layerSize, selected, sliceBlocks_all hshape, Nat.sub_zero]
    rfl
  simp only [hsize]
  refine hgrows.congr ?_ ?_
  · simp only [and_true, true_and]
    constructor
    · rintro ⟨hname, hcount, hhashes⟩
      exact ⟨hshape, hname, hcount, hhashes⟩
    · intro hvalid
      exact ⟨hvalid.name, hvalid.count, hvalid.hashes⟩
  · have hsnd : (layer.blockIds.zip layer.blockHashes).map Prod.snd = layer.blockHashes :=
      List.map_snd_zip hshape.ge
    have hblocks := length_flatMap_blockWire (layer.blockIds.zip layer.blockHashes)
    rw [hsnd, List.length_zip, ← hshape, Nat.min_self] at hblocks
    simp only [layerWire, List.length_flatten, List.map_cons, List.map_nil, List.sum_cons,
      List.sum_nil, length_leBytes, hblocks, Nat.mul_one]
    omega

theorem encodedLen_eq_ok {request : PublishRequest} {size : Nat} :
    request.encodedLen none = .ok size ↔
      request.Valid ∧ size = request.wire.length ∧ request.wire.length ≤ isizeMax := by
  simp only [encodedLen, bind_eq_ok_iff, failIf_eq_ok, validatePublishLayers_eq_ok,
    checkedU32_eq_ok]
  have hlength : request.wire.length = publishHeaderBytes + ((asBytes request.instanceId).length * 1 +
      (request.layers.map fun layer => (layerWire layer).length).sum) := by
    simp only [wire, List.length_flatten, List.map_cons, List.map_nil, List.sum_cons, List.sum_nil,
      length_leBytes, List.length_flatMap, publishHeaderBytes, Vector.length_toList]
    omega
  have hsum : (∀ layer ∈ request.layers, layer.blockIds.length = layer.blockHashes.length) →
      ((∃ size', addEncodedSize publishHeaderBytes (asBytes request.instanceId).length 1 = .ok size' ∧
        request.layers.foldlM (layerSize none) size' = .ok size) ↔
          (∀ layer ∈ request.layers, LayerValid layer) ∧ size = request.wire.length ∧
            request.wire.length ≤ isizeMax) := by
    intro hshape
    have hlayers : ∀ layer ∈ request.layers, Grows (fun size => layerSize none size layer)
        (LayerValid layer) (layerWire layer).length := fun layer hlayer =>
      grows_layerSize (hshape layer hlayer)
    have hgrows := (grows_addEncodedSize (asBytes request.instanceId).length 1).bind
      (Grows.foldlM _ hlayers)
    have hok := hgrows.eq_ok hlength (by unfold publishHeaderBytes isizeMax; omega) size
    rwa [bind_eq_ok_iff, true_and] at hok
  constructor
  · rintro ⟨-, hgeneration, -, hshape, _, ⟨hinstance, -⟩, _, ⟨hcount, -⟩, hok⟩
    obtain ⟨hlayers, hsize, hfits⟩ := (hsum hshape).mp hok
    exact ⟨⟨hgeneration, hinstance, hcount, hlayers⟩, hsize, hfits⟩
  · rintro ⟨hvalid, hsize, hfits⟩
    have hshape : ∀ layer ∈ request.layers, layer.blockIds.length = layer.blockHashes.length :=
      fun layer hlayer => (hvalid.layers layer hlayer).shape
    exact ⟨(), hvalid.generation, (), hshape, _, ⟨hvalid.instanceId, rfl⟩, _, ⟨hvalid.count, rfl⟩,
      (hsum hshape).mpr ⟨hvalid.layers, hsize, hfits⟩⟩

theorem appends_encodeLayer {layer : PublishLayer}
    (hshape : layer.blockIds.length = layer.blockHashes.length) :
    Appends (fun bytes => encodeLayer none bytes layer) (LayerValid layer) (layerWire layer) := by
  have hblock : ∀ block ∈ layer.blockIds.zip layer.blockHashes,
      Appends (fun bytes => encodeBlock bytes block) (block.2.length < 2 ^ 32) (blockWire block) := by
    intro block _ b b'
    change pushBytes (pushU32 b block.1) block.2 "block_hash" = .ok b' ↔ _
    rw [appends_pushBytes block.2 "block_hash" _ _, blockWire, sizedWire, pushU32, List.append_assoc]
  have hblocks := Appends.foldlM _ hblock
  intro b b'
  simp only [encodeLayer, selected, sliceBlocks_all rfl, sliceBlocks_all hshape, bind_eq_ok_iff,
    checkedU32_eq_ok, Nat.sub_zero, Except.ok.injEq, exists_eq_left', hblocks _ _,
    forall_mem_zip hshape]
  constructor
  · rintro ⟨_, ⟨hname, rfl⟩, _, ⟨hcount, rfl⟩, hhashes, rfl⟩
    refine ⟨⟨hshape, hname, hcount, hhashes⟩, ?_⟩
    simp [layerWire, pushU32]
  · rintro ⟨hvalid, rfl⟩
    refine ⟨_, ⟨hvalid.name, rfl⟩, _, ⟨hvalid.count, rfl⟩, hvalid.hashes, ?_⟩
    simp [layerWire, pushU32]

theorem encodes : Encodes encode Valid wire := by
  intro request b
  have hcount : request.layers.countP (fun layer => (selected none layer).isSome) =
      request.layers.length := by
    rw [List.countP_eq_length]
    exact fun _ _ => rfl
  simp only [encode, encodeRange, bind_eq_ok_iff, encodedLen_eq_ok, withCapacity_eq_ok,
    checkedU32_eq_ok, hcount, Nat.one_mul]
  constructor
  · rintro ⟨_, ⟨hvalid, rfl, hsize⟩, -, -, _, ⟨-, rfl⟩, _, ⟨-, rfl⟩, hlayers⟩
    have hwrite := Appends.foldlM request.layers fun layer hlayer =>
      appends_encodeLayer (hvalid.layers layer hlayer).shape
    obtain ⟨-, rfl⟩ := (hwrite _ _).mp hlayers
    refine ⟨hvalid, hsize, ?_⟩
    simp [wire, pushU32, pushU16, pushI32]
  · rintro ⟨hvalid, hsize, rfl⟩
    have hwrite := Appends.foldlM request.layers fun layer hlayer =>
      appends_encodeLayer (hvalid.layers layer hlayer).shape
    refine ⟨_, ⟨hvalid, rfl, hsize⟩, (), hsize, _, ⟨hvalid.instanceId, rfl⟩, _, ⟨hvalid.count, rfl⟩,
      (hwrite _ _).mpr ⟨hvalid.layers, ?_⟩⟩
    simp [wire, pushU32, pushU16, pushI32]

end PublishRequest

end OrbitKV
