import OrbitKV.Storage.SsdIndex

/-!
# The descriptor arena

Slots with a generation word, a length word and a payload area (`arena.rs`). The lock of an arena
belongs to one process, so `writeAt` is the list of its stores and `read` the sequence of its loads.
-/

namespace OrbitKV

abbrev Payload : Type := List UInt8

structure DescriptorRef where
  offset : Nat
  len : Nat
  generation : Nat
  deriving DecidableEq, Repr

inductive ArenaError where
  | tooSmall (arenaBytes slotCapacity : Nat)
  | fieldOverflow (field : String)
  | slotOutOfRange (slot slotCount : Nat)
  | invalidOffset (offset : Nat)
  | payloadTooLarge (len capacity : Nat)
  | zeroGeneration
  | staleGeneration (expected actual : Nat)
  | lengthMismatch (expected actual : Nat)
  | concurrentWrite (expected actual : Nat)
  deriving DecidableEq, Repr

/-! ### Layout -/

def arenaHeaderBytes : Nat := 4096

def slotHeaderBytes : Nat := 16

def wordAlign : Nat := 8

structure ArenaLayout where
  slotCapacity : Nat
  slotStride : Nat
  slotCount : Nat
  holds_slot : slotHeaderBytes + slotCapacity ≤ slotStride

namespace ArenaLayout

theorem stride_pos (layout : ArenaLayout) : 0 < layout.slotStride := by
  have hfits := layout.holds_slot
  unfold slotHeaderBytes at hfits
  omega

def alignUp (bytes : Nat) : Nat :=
  (bytes + (wordAlign - 1)) / wordAlign * wordAlign

theorem le_alignUp (bytes : Nat) : bytes ≤ alignUp bytes := by
  unfold alignUp wordAlign
  omega

def new (arenaBytes slotCapacity : Nat) : Except ArenaError ArenaLayout :=
  if slotHeaderBytes + slotCapacity + (wordAlign - 1) < u64Bound then
    let slotStride := alignUp (slotHeaderBytes + slotCapacity)
    let slotCount := (arenaBytes - arenaHeaderBytes) / slotStride
    if slotCapacity = 0 ∨ slotCount = 0 then .error (.tooSmall arenaBytes slotCapacity)
    else .ok ⟨slotCapacity, slotStride, slotCount, le_alignUp _⟩
  else .error (.fieldOverflow "slot_stride")

variable (layout : ArenaLayout)

def slotOffset (slot : Nat) : Except ArenaError Nat :=
  if layout.slotCount ≤ slot then .error (.slotOutOfRange slot layout.slotCount)
  else .ok (arenaHeaderBytes + slot * layout.slotStride + slotHeaderBytes)

/-- `descriptor_slot`; `validate_offset` is the same check. -/
def descriptorSlot (offset : Nat) : Except ArenaError Nat :=
  if offset < arenaHeaderBytes + slotHeaderBytes then .error (.invalidOffset offset)
  else
    let relative := offset - (arenaHeaderBytes + slotHeaderBytes)
    if relative % layout.slotStride ≠ 0 then .error (.invalidOffset offset)
    else if layout.slotCount ≤ relative / layout.slotStride then .error (.invalidOffset offset)
    else .ok (relative / layout.slotStride)

theorem descriptorSlot_of_slotOffset {slot offset : Nat}
    (hoffset : layout.slotOffset slot = .ok offset) : layout.descriptorSlot offset = .ok slot := by
  unfold slotOffset at hoffset
  split_ifs at hoffset with hrange
  cases hoffset
  have hrelative : arenaHeaderBytes + slot * layout.slotStride + slotHeaderBytes
      - (arenaHeaderBytes + slotHeaderBytes) = slot * layout.slotStride := by omega
  have hslot : slot * layout.slotStride / layout.slotStride = slot :=
    Nat.mul_div_cancel slot layout.stride_pos
  unfold descriptorSlot
  rw [if_neg (by omega), hrelative]
  simp [hslot, hrange]

end ArenaLayout

/-! ### A slot and its stores -/

/-- The payload area is a function of the index: only the first `slot_capacity` bytes are used. -/
structure ArenaSlot where
  generation : Nat
  len : Nat
  bytes : Nat → UInt8

inductive Store where
  | generation (value : Nat)
  | byte (index : Nat) (value : UInt8)
  | len (value : Nat)
  deriving DecidableEq, Repr

namespace ArenaSlot

def zeroed : ArenaSlot where
  generation := 0
  len := 0
  bytes _ := 0

def store (slot : ArenaSlot) : Store → ArenaSlot
  | .generation value => { slot with generation := value }
  | .byte index value => { slot with bytes := Function.update slot.bytes index value }
  | .len value => { slot with len := value }

def payload (slot : ArenaSlot) (len : Nat) : Payload :=
  (List.range len).map slot.bytes

/-- The slot shows `payload` under the generation. -/
structure Holds (slot : ArenaSlot) (generation : Nat) (payload : Payload) : Prop where
  generation_eq : slot.generation = generation
  len_eq : slot.len = payload.length
  payload_eq : slot.payload payload.length = payload

end ArenaSlot

/-- The stores that copy `payload` into the payload area from `index` on. -/
def copyStores : Nat → Payload → List Store
  | _, [] => []
  | index, value :: rest => .byte index value :: copyStores (index + 1) rest

def writeStores (generation : Nat) (payload : Payload) : List Store :=
  .generation 0 :: (copyStores 0 payload ++ [.len payload.length, .generation generation])

def resetStores (generation : Nat) : List Store :=
  [.len 0, .generation generation]

theorem foldl_copyStores (payload : Payload) (index : Nat) (slot : ArenaSlot) :
    (copyStores index payload).foldl ArenaSlot.store slot =
      { slot with bytes := fun i =>
          if index ≤ i then payload.getD (i - index) (slot.bytes i) else slot.bytes i } := by
  induction payload generalizing index slot with
  | nil => simp [copyStores]
  | cons value rest ih =>
    rw [copyStores, List.foldl_cons, ih, ArenaSlot.store]
    congr 1
    funext i
    rcases Nat.lt_trichotomy i index with hlt | rfl | hgt
    · simp [Nat.not_le.mpr hlt, show ¬ index + 1 ≤ i by omega, hlt.ne]
    · simp
    · obtain ⟨k, rfl⟩ := Nat.exists_eq_add_of_lt hgt
      simp [show index + k + 1 - (index + 1) = k by omega,
        show index + k + 1 - index = k + 1 by omega, show index ≤ index + k + 1 by omega,
        show index + k + 1 ≠ index by omega]

theorem writeStores_holds (slot : ArenaSlot) (generation : Nat) (payload : Payload) :
    ((writeStores generation payload).foldl ArenaSlot.store slot).Holds generation payload := by
  simp only [writeStores, List.foldl_cons, List.foldl_append, foldl_copyStores, List.foldl_nil,
    ArenaSlot.store]
  refine ⟨rfl, rfl, ?_⟩
  apply List.ext_getElem
  · simp [ArenaSlot.payload]
  · intro i _ hi
    simp [ArenaSlot.payload, hi]

/-- A write that has passed its checks: the slot, what remains to be stored and the descriptor that
is returned. -/
structure PendingWrite where
  slot : Nat
  stores : List Store
  descriptor : DescriptorRef

namespace ArenaLayout

variable (layout : ArenaLayout)

def writeAt (offset generation : Nat) (payload : Payload) : Except ArenaError PendingWrite :=
  if generation = 0 then .error .zeroGeneration
  else if layout.slotCapacity < payload.length then
    .error (.payloadTooLarge payload.length layout.slotCapacity)
  else do
    let slot ← layout.descriptorSlot offset
    if payload.length < 2 ^ 32 then
      return ⟨slot, writeStores generation payload, ⟨offset, payload.length, generation⟩⟩
    else throw (.fieldOverflow "payload_len")

def writeSlot (slot generation : Nat) (payload : Payload) : Except ArenaError PendingWrite := do
  let offset ← layout.slotOffset slot
  layout.writeAt offset generation payload

def writeResponse (request : DescriptorRef) (payload : Payload) : Except ArenaError PendingWrite :=
  match boundedAdd request.generation 1 with
  | none => .error (.fieldOverflow "generation")
  | some generation => layout.writeAt request.offset generation payload

end ArenaLayout

/-! ### The loads of a read -/

/-- How far a `read` has come. -/
inductive Reader where
  | generation
  | len
  | copying (copied : Payload)
  | done (result : Except ArenaError Payload)

/-- One load of a `read` of `descriptor`, with the check that follows it. -/
def ArenaSlot.load (slot : ArenaSlot) (capacity : Nat) (descriptor : DescriptorRef) :
    Reader → Reader
  | .generation =>
    if slot.generation ≠ descriptor.generation then
      .done (.error (.staleGeneration descriptor.generation slot.generation))
    else .len
  | .len =>
    if slot.len ≠ descriptor.len then
      .done (.error (.lengthMismatch descriptor.len slot.len))
    else if capacity < slot.len then .done (.error (.payloadTooLarge slot.len capacity))
    else .copying []
  | .copying copied =>
    if copied.length < descriptor.len then .copying (copied ++ [slot.bytes copied.length])
    else if slot.generation ≠ descriptor.generation then
      .done (.error (.concurrentWrite descriptor.generation slot.generation))
    else .done (.ok copied)
  | .done result => .done result

/-- What a read has seen so far is what a read of `payload` sees. -/
def Reader.Reads (payload : Payload) : Reader → Prop
  | .generation | .len | .done (.error _) => True
  | .copying copied => copied <+: payload
  | .done (.ok result) => result = payload

theorem ArenaSlot.Holds.load {slot : ArenaSlot} {descriptor : DescriptorRef} {payload : Payload}
    (hholds : slot.Holds descriptor.generation payload) (hlen : descriptor.len = payload.length)
    {reader : Reader} (hreads : reader.Reads payload) (capacity : Nat) :
    (slot.load capacity descriptor reader).Reads payload := by
  cases reader with
  | generation =>
    simp only [ArenaSlot.load]
    split_ifs <;> trivial
  | len =>
    simp only [ArenaSlot.load]
    split_ifs
    · trivial
    · trivial
    · exact List.nil_prefix
  | copying copied =>
    obtain ⟨rest, hrest⟩ := hreads
    simp only [ArenaSlot.load]
    split_ifs with hmore hgeneration
    · rw [hlen] at hmore
      have hbyte : slot.bytes copied.length = payload[copied.length] := by
        have hpayload := congrArg (·[copied.length]?) hholds.payload_eq
        simpa [ArenaSlot.payload, hmore] using hpayload
      rw [hbyte]
      have htake : copied = payload.take copied.length := by simp [← hrest]
      refine ⟨payload.drop (copied.length + 1), ?_⟩
      calc copied ++ [payload[copied.length]] ++ payload.drop (copied.length + 1)
          = copied ++ payload.drop copied.length := by
            rw [List.append_assoc, List.singleton_append, List.getElem_cons_drop]
        _ = payload := by
            nth_rewrite 1 [htake]
            exact List.take_append_drop _ _
    · trivial
    · rw [hlen, ← hrest, List.length_append, Nat.not_lt] at hmore
      have hnil : rest = [] := List.length_eq_zero_iff.mp (by omega)
      simpa [Reader.Reads, hnil] using hrest
  | done result => exact hreads

end OrbitKV
