import OrbitKV.Proof.RestoreWords

/-!
# Results of restore grants

To write the result of an operation, to report its drain and to acknowledge it are capabilities.
-/

namespace OrbitKV

open Std GrantState Function

def GrantState.isOpen : GrantState → Bool
  | .drained | .reaped | .acknowledged => false
  | _ => true

def GrantState.isFinal : GrantState → Bool
  | .drained | .reaped => true
  | _ => false

def finishes (log : List Exchange) (id : Nat) : List RestoreResult :=
  log.filterMap fun exchange => if exchange.new / 16 = id then exchange.note else none

structure Area.Encodes (area : Area) (slot : Slot) (result : RestoreResult) : Prop where
  word : area.fields slot .result = (storedMessage result).length * 2 + result.failed
  text : loadBytes (area.texts slot) 0 (storedMessage result).length = storedMessage result

inductive RestoreCap where
  | manage (id : Nat)
  | active (id : Nat)
  | acked (id : Nat)
  deriving DecidableEq

namespace GrantState

def writer : GrantState → Option (Nat → RestoreCap)
  | .preparing | .cancelRequested | .managed | .revoked => some .manage
  | .active | .activeMore => some .active
  | _ => none

def requires : GrantState → GrantState → Option (Nat → RestoreCap)
  | .reserved, .acknowledged | .preparing, .cancelRequested | .granted, .active
  | .grantedMore, .activeMore | .partDrained, .preparing | .reaped, .acknowledged => none
  | .active, _ | .activeMore, _ => some .active
  | _, _ => some .manage

def passes (source target : GrantState) (id : Nat) (held : Set RestoreCap) : Set RestoreCap :=
  match source, target with
  | .granted, .active | .grantedMore, .activeMore => insert (.active id) held
  | .active, _ | .activeMore, _ => held \ {.active id}
  | .reaped, .acknowledged => insert (.acked id) held
  | _, _ => held

theorem isFinal_of_isOpen {state : GrantState} (hopen : state.isOpen = true) :
    state.isFinal = false := by
  cases state <;> first | rfl | cases hopen

theorem isOpen_of_moves {source target : GrantState} (hmoves : source.moves target = true)
    (htarget : target.isOpen = true) : source.isOpen = true := by
  cases source <;> first | rfl | skip
  all_goals cases target <;> first | exact absurd hmoves (by decide) | exact absurd htarget (by decide)

theorem isFinal_of_moves {source target : GrantState} (hmoves : source.moves target = true)
    (htarget : target.isFinal = true) (hsource : source.isOpen = false) :
    source.isFinal = true := by
  cases source <;> first | rfl | exact absurd hsource (by decide) | skip
  cases target <;> exact absurd hmoves (by decide)

end GrantState

def Access.Plain : Access → Prop
  | .exchange .. | .writeResult .. => False
  | .storeField _ field _ => field ≠ .result
  | _ => True

theorem Access.Calm.plain {access : Access} (hcalm : access.Calm) : access.Plain := by
  cases access with
  | exchange | writeResult => exact hcalm.elim
  | storeField slot field value =>
    obtain rfl : field = .claimed := hcalm
    exact nofun
  | _ => trivial

theorem Access.OfPlan.plain {access : Access} (hplan : access.OfPlan) : access.Plain := by
  cases access with
  | exchange | writeResult => exact hplan.elim
  | storeField => exact hplan
  | _ => trivial

inductive Sanctioned (held : Set RestoreCap) (area : Area) : Access → Prop
  | move {id : Nat} {source target : GrantState} {note : Option RestoreResult} (hpos : 0 < id)
      (hmoves : source.moves target = true)
      (hheld : ∀ cap ∈ source.requires target, cap id ∈ held)
      (hnote : note.isSome = (source.isOpen && target.isFinal))
      (hwritten : ∀ result ∈ note, area.Encodes (slotOf id) result) :
      Sanctioned held area (.exchange (slotOf id) (tagOf id source) (tagOf id target) note)
  | reserve {id tag : Nat} (hfree : tag = 0 ∨ tag % 16 = acknowledged.code)
      (hless : tag / 16 < id) :
      Sanctioned held area (.exchange (slotOf id) tag (tagOf id .reserved) none)
  | write {id : Nat} {state : GrantState} {cap : Nat → RestoreCap} {result : RestoreResult}
      (hpos : 0 < id) (htag : area.tags (slotOf id) = tagOf id state)
      (hwriter : state.writer = some cap) (hheld : cap id ∈ held) :
      Sanctioned held area (.writeResult (slotOf id) result)
  | plain {access : Access} (hplain : access.Plain) : Sanctioned held area access

/-- What the final results, the words and the log say about each other. -/
structure Area.Accounted (area : Area) : Prop where
  ordered : area.Ordered
  opened : ∀ (id : Nat) (state : GrantState), 0 < id → area.tags (slotOf id) = tagOf id state →
    state.isOpen = true → finishes area.log id = []
  final : ∀ (id : Nat) (state : GrantState), 0 < id → area.tags (slotOf id) = tagOf id state →
    state.isFinal = true → ∃ result, finishes area.log id = [result] ∧
      area.Encodes (slotOf id) result
  single : ∀ id, (finishes area.log id).length ≤ 1
  acknowledged : ∀ id, Moved area.log id .reaped .acknowledged →
    area.tags (slotOf id) = tagOf id .acknowledged ∨ id < area.tags (slotOf id) / 16

/-! ### Accesses -/

structure Area.Same (area area' : Area) : Prop where
  tags : area'.tags = area.tags
  log : area'.log = area.log
  results : ∀ slot, area'.fields slot .result = area.fields slot .result
  texts : area'.texts = area.texts

namespace Area

variable {area area' : Area} {id : Nat} {source target : GrantState} {slot : Slot}
  {result : RestoreResult}

theorem Same.encodes (hsame : area.Same area') (hencodes : area.Encodes slot result) :
    area'.Encodes slot result := by
  constructor
  · rw [hsame.results, hencodes.word]
  · rw [hsame.texts, hencodes.text]

theorem same_perform {access : Access} (hplain : access.Plain) (area : Area) :
    area.Same (access.perform area).2 := by
  cases access with
  | exchange | writeResult => exact hplain.elim
  | fetchNext =>
    dsimp only [Access.perform, Area.fetchNext]
    split <;> exact ⟨rfl, rfl, fun _ => rfl, rfl⟩
  | placePlan id plan =>
    dsimp only [Access.perform, Area.placePlan]
    split
    · exact ⟨rfl, rfl, fun _ => rfl, rfl⟩
    · split <;> exact ⟨rfl, rfl, fun _ => rfl, rfl⟩
  | storeField slot field value =>
    refine ⟨rfl, rfl, fun other => ?_, rfl⟩
    simp only [Access.perform, Area.storeField]
    by_cases hslot : other = slot
    · rw [hslot, update_self, update_of_ne (Ne.symm hplain)]
    · rw [update_of_ne hslot]
  | _ => exact ⟨rfl, rfl, fun _ => rfl, rfl⟩

theorem encodes_writeResult (area : Area) (slot : Slot) (result : RestoreResult) :
    (area.writeResult slot result).Encodes slot result := by
  constructor
  · simp [Area.writeResult, Area.storeField]
  · simp only [Area.writeResult, Area.storeField, update_self]
    exact loadBytes_storeBytes _ 0 _

theorem Encodes.writeResult {other : Slot} {written : RestoreResult}
    (hencodes : area.Encodes slot result) (hslot : slot ≠ other) :
    (area.writeResult other written).Encodes slot result := by
  constructor
  · simp only [Area.writeResult, Area.storeField, update_of_ne hslot]
    exact hencodes.word
  · simp only [Area.writeResult, Area.storeField, update_of_ne hslot]
    exact hencodes.text

theorem finishes_append (log : List Exchange) (exchange : Exchange) (id : Nat) :
    finishes (log ++ [exchange]) id =
      finishes log id ++ if exchange.new / 16 = id then exchange.note.toList else [] := by
  rw [finishes, List.filterMap_append]
  congr 1
  by_cases hid : exchange.new / 16 = id
  · cases hnote : exchange.note <;> simp [hid, hnote]
  · simp [hid]

theorem Accounted.same (haccounted : area.Accounted) (hsame : area.Same area') :
    area'.Accounted := by
  obtain ⟨hordered, hopened, hfinal, hsingle, hacknowledged⟩ := haccounted
  have hkept := hordered.congr hsame.tags hsame.log
  rw [← hsame.tags, ← hsame.log] at hopened hfinal hacknowledged
  rw [← hsame.log] at hsingle
  refine ⟨hkept, hopened, ?_, hsingle, hacknowledged⟩
  intro id state hpos htag hstate
  obtain ⟨result, hfinishes, hencodes⟩ := hfinal id state hpos htag hstate
  exact ⟨result, hfinishes, hsame.encodes hencodes⟩

theorem Accounted.write (haccounted : area.Accounted) {state : GrantState}
    (htag : area.tags (slotOf id) = tagOf id state) (hstate : state.isFinal = false)
    (result : RestoreResult) : (area.writeResult (slotOf id) result).Accounted :=
  { haccounted with
    ordered := haccounted.ordered.congr rfl rfl
    final := fun other final hpos hother hfinal => by
      have hslot : slotOf other ≠ slotOf id := by
        intro hslot
        have hsame : tagOf other final = tagOf id state := by
          rw [← htag, ← hslot]
          exact hother.symm
        rw [(tagOf_inj.mp hsame).2, hstate] at hfinal
        cases hfinal
      obtain ⟨written, hfinishes, hencodes⟩ := haccounted.final other final hpos hother hfinal
      exact ⟨written, hfinishes, hencodes.writeResult hslot⟩ }

theorem Accounted.finishes_eq_nil (haccounted : area.Accounted)
    (hless : area.tags (slotOf id) / 16 < id) : finishes area.log id = [] := by
  rw [finishes, List.filterMap_eq_nil_iff]
  intro exchange hexchange
  obtain ⟨hslot, hlatest⟩ := haccounted.ordered.latest exchange hexchange
  rw [if_neg]
  intro hid
  rw [hid] at hslot hlatest
  rw [← hslot] at hlatest
  omega

theorem Encodes.exchanged (hencodes : area.Encodes slot result) (exchange : Exchange) :
    (area.exchanged exchange).Encodes slot result :=
  ⟨hencodes.word, hencodes.text⟩

theorem tag_exchanged {other old : Nat} {state : GrantState} {note : Option RestoreResult}
    (htag : (area.exchanged ⟨slotOf id, old, tagOf id target, note⟩).tags (slotOf other) =
      tagOf other state) :
    id = other ∧ target = state ∨
      slotOf other ≠ slotOf id ∧ area.tags (slotOf other) = tagOf other state := by
  by_cases hslot : slotOf other = slotOf id
  · simp only [exchanged, hslot, update_self, tagOf_inj] at htag
    exact .inl htag
  · simp only [exchanged, update_of_ne hslot] at htag
    exact .inr ⟨hslot, htag⟩

theorem tags_reserve {other old new : Nat} {state : GrantState} {note : Option RestoreResult}
    (hold : area.tags (slotOf other) = old)
    (hfree : old = 0 ∨ old % 16 = GrantState.acknowledged.code)
    (htag : area.tags (slotOf id) = tagOf id state)
    (hstate : state ≠ .reserved ∧ state ≠ .acknowledged) :
    (area.exchanged ⟨slotOf other, old, new, note⟩).tags (slotOf id) = tagOf id state := by
  have hslot : slotOf id ≠ slotOf other := by
    intro hslot
    rw [hslot, hold] at htag
    have hdecode := decode_free hfree
    rw [htag, decode_tagOf] at hdecode
    simp [hstate] at hdecode
  simpa only [Area.exchanged, update_of_ne hslot] using htag

theorem Accounted.move (haccounted : area.Accounted) (hpos : 0 < id)
    (hmoves : source.moves target = true) (hold : area.tags (slotOf id) = tagOf id source)
    {note : Option RestoreResult} (hnote : note.isSome = (source.isOpen && target.isFinal))
    (hwritten : ∀ result ∈ note, area.Encodes (slotOf id) result) :
    (area.exchanged ⟨slotOf id, tagOf id source, tagOf id target, note⟩).Accounted := by
  have hfinishes : ∀ other, finishes (area.exchanged
      ⟨slotOf id, tagOf id source, tagOf id target, note⟩).log other =
        finishes area.log other ++ if id = other then note.toList else [] := by
    intro other
    rw [exchanged, finishes_append, tagOf_div]
  have hopen : source.isOpen = true → finishes area.log id = [] :=
    haccounted.opened id source hpos hold
  constructor
  case ordered => exact haccounted.ordered.move hpos hmoves hold note
  case opened =>
    intro other state hother htag hstate
    rw [hfinishes]
    obtain ⟨rfl, rfl⟩ | ⟨hslot, htag⟩ := tag_exchanged htag
    · have hnone : note = none := by
        rw [isFinal_of_isOpen hstate, Bool.and_false] at hnote
        simpa using hnote
      rw [hopen (isOpen_of_moves hmoves hstate), hnone]
      simp
    · rw [haccounted.opened other state hother htag hstate,
        if_neg fun heq : id = other => hslot (heq ▸ rfl)]
      rfl
  case final =>
    intro other state hother htag hstate
    simp only [hfinishes]
    obtain ⟨rfl, rfl⟩ | ⟨hslot, htag⟩ := tag_exchanged htag
    · cases hsource : source.isOpen with
      | true =>
        rw [hsource, hstate] at hnote
        obtain ⟨result, rfl⟩ := Option.isSome_iff_exists.mp hnote
        refine ⟨result, by simp [hopen hsource], ?_⟩
        exact (hwritten result rfl).exchanged _
      | false =>
        rw [hsource, Bool.false_and] at hnote
        obtain rfl : note = none := by simpa using hnote
        obtain ⟨result, hresult, hencodes⟩ := haccounted.final id source hpos hold
          (isFinal_of_moves hmoves hstate hsource)
        exact ⟨result, by simp [hresult], hencodes.exchanged _⟩
    · obtain ⟨result, hresult, hencodes⟩ := haccounted.final other state hother htag hstate
      refine ⟨result, ?_, hencodes.exchanged _⟩
      rw [hresult, if_neg fun heq : id = other => hslot (heq ▸ rfl)]
      rfl
  case single =>
    intro other
    rw [hfinishes]
    by_cases hid : id = other
    · subst hid
      cases hsource : source.isOpen with
      | true =>
        rw [hopen hsource, if_pos rfl]
        cases note <;> simp
      | false =>
        rw [hsource, Bool.false_and] at hnote
        obtain rfl : note = none := by simpa using hnote
        simpa using haccounted.single id
    · simpa [hid] using haccounted.single other
  case acknowledged =>
    intro other hmoved
    simp only [exchanged, moved_append, tagOf_inj] at hmoved ⊢
    by_cases hslot : slotOf other = slotOf id
    · rw [hslot, update_self, tagOf_div]
      rcases hmoved with hmoved | ⟨⟨rfl, -⟩, -, rfl⟩
      · rcases haccounted.acknowledged other hmoved with htag | hlater
        · rw [hslot, hold] at htag
          obtain ⟨rfl, rfl⟩ := tagOf_inj.mp htag
          rw [not_moves_from_acknowledged] at hmoves
          cases hmoves
        · rw [hslot, hold, tagOf_div] at hlater
          exact .inr hlater
      · exact .inl rfl
    · rw [update_of_ne hslot]
      rcases hmoved with hmoved | ⟨⟨rfl, -⟩, -⟩
      · exact haccounted.acknowledged other hmoved
      · exact absurd rfl hslot

theorem Accounted.reserve (haccounted : area.Accounted) {tag : Nat}
    (hold : area.tags (slotOf id) = tag)
    (hfree : tag = 0 ∨ tag % 16 = GrantState.acknowledged.code) (hless : tag / 16 < id) :
    (area.exchanged ⟨slotOf id, tag, tagOf id .reserved, none⟩).Accounted := by
  have hfinishes : ∀ other, finishes (area.exchanged
      ⟨slotOf id, tag, tagOf id .reserved, none⟩).log other = finishes area.log other := by
    intro other
    rw [exchanged, finishes_append]
    simp
  constructor
  case ordered => exact haccounted.ordered.reserve hold hfree hless none
  case opened =>
    intro other state hother htag hstate
    rw [hfinishes]
    obtain ⟨rfl, rfl⟩ | ⟨hslot, htag⟩ := tag_exchanged htag
    · apply haccounted.finishes_eq_nil
      rw [hold]
      exact hless
    · exact haccounted.opened other state hother htag hstate
  case final =>
    intro other state hother htag hstate
    rw [hfinishes]
    obtain ⟨rfl, rfl⟩ | ⟨-, htag⟩ := tag_exchanged htag
    · cases hstate
    · obtain ⟨result, hresult, hencodes⟩ := haccounted.final other state hother htag hstate
      exact ⟨result, hresult, hencodes.exchanged _⟩
  case single =>
    intro other
    rw [hfinishes]
    exact haccounted.single other
  case acknowledged =>
    intro other hmoved
    have hmoved : Moved area.log other .reaped .acknowledged := by
      simp only [exchanged, moved_append, tagOf_inj] at hmoved
      exact hmoved.resolve_right fun h => by cases h.2.2
    by_cases hslot : slotOf other = slotOf id
    · simp only [exchanged, hslot, update_self, tagOf_div]
      refine .inr ?_
      rcases haccounted.acknowledged other hmoved with htag | hlater
      · rw [hslot, hold] at htag
        rwa [htag, tagOf_div] at hless
      · rw [hslot, hold] at hlater
        omega
    · simp only [exchanged, update_of_ne hslot]
      exact haccounted.acknowledged other hmoved

theorem accounted_new : Area.new.Accounted where
  ordered := ordered_new
  opened _ _ _ _ _ := rfl
  final id state hpos htag _ := absurd (eq_zero_of_tagOf htag.symm) hpos.ne'
  single _ := Nat.zero_le _
  acknowledged id hmoved := by simp [Area.new, Moved] at hmoved

end Area

/-! ### The discipline -/

def capsAfter (held : Set RestoreCap) : (access : Access) → access.Answer → Set RestoreCap
  | .exchange _ old new _, true =>
    match decode old, decode new with
    | some source, some target => source.passes target (new / 16) held
    | _, _ => held
  | _, _ => held

def RestoreCap.Backed : RestoreCap → Area → Prop
  | .manage _, _ => True
  | .active id, area => ∃ state : GrantState, (state = .active ∨ state = .activeMore) ∧
      area.tags (slotOf id) = tagOf id state
  | .acked id, area => Moved area.log id .reaped .acknowledged

section Discipline

variable {held : Set RestoreCap} {area : Area} {access : Access} {id : Nat}
  {source target : GrantState}
  {cap : RestoreCap}

@[simp] theorem capsAfter_move (slot : Slot) (note : Option RestoreResult) :
    capsAfter held (.exchange slot (tagOf id source) (tagOf id target) note) true =
      source.passes target id held := by
  simp [capsAfter]

theorem capsAfter_reserve {tag : Nat} (slot : Slot) (note : Option RestoreResult)
    (hfree : tag = 0 ∨ tag % 16 = acknowledged.code) :
    capsAfter held (.exchange slot tag (tagOf id .reserved) note) true = held := by
  rcases decode_free hfree with hdecode | hdecode <;> simp [capsAfter, hdecode, passes]

theorem capsAfter_plain (hplain : access.Plain) (answer : access.Answer) :
    capsAfter held access answer = held := by
  cases access with
  | exchange => exact hplain.elim
  | _ => rfl

/-- **What a sanctioned access does** to the words and the capabilities. -/
inductive Took (held : Set RestoreCap) (area : Area) : Area → Set RestoreCap → Prop
  | same {area' : Area} (hsame : area.Same area') : Took held area area' held
  | move {id : Nat} {source target : GrantState} {note : Option RestoreResult} (hpos : 0 < id)
      (hmoves : source.moves target = true)
      (hheld : ∀ cap ∈ source.requires target, cap id ∈ held)
      (hnote : note.isSome = (source.isOpen && target.isFinal))
      (hwritten : ∀ result ∈ note, area.Encodes (slotOf id) result)
      (hold : area.tags (slotOf id) = tagOf id source) :
      Took held area (area.exchanged ⟨slotOf id, tagOf id source, tagOf id target, note⟩)
        (source.passes target id held)
  | reserve {id tag : Nat} (hfree : tag = 0 ∨ tag % 16 = acknowledged.code)
      (hless : tag / 16 < id) (hold : area.tags (slotOf id) = tag) :
      Took held area (area.exchanged ⟨slotOf id, tag, tagOf id .reserved, none⟩) held
  | write {id : Nat} {state : GrantState} {cap : Nat → RestoreCap} {result : RestoreResult}
      (hpos : 0 < id) (htag : area.tags (slotOf id) = tagOf id state)
      (hwriter : state.writer = some cap) (hheld : cap id ∈ held) :
      Took held area (area.writeResult (slotOf id) result) held

theorem Sanctioned.took (hsanctioned : Sanctioned held area access) :
    Took held area (access.perform area).2 (capsAfter held access (access.perform area).1) := by
  cases hsanctioned with
  | @move id source target note hpos hmoves hheld hnote hwritten =>
    rcases area.exchange_cases (slotOf id) (tagOf id source) (tagOf id target) note with
      ⟨hold, hresult⟩ | ⟨-, hresult⟩
    · rw [Access.perform, hresult, capsAfter_move]
      exact .move hpos hmoves hheld hnote hwritten hold
    · rw [Access.perform, hresult]
      exact .same ⟨rfl, rfl, fun _ => rfl, rfl⟩
  | @reserve id tag hfree hless =>
    rcases area.exchange_cases (slotOf id) tag (tagOf id .reserved) none with
      ⟨hold, hresult⟩ | ⟨-, hresult⟩
    · rw [Access.perform, hresult, capsAfter_reserve _ _ hfree]
      exact .reserve hfree hless hold
    · rw [Access.perform, hresult]
      exact .same ⟨rfl, rfl, fun _ => rfl, rfl⟩
  | write hpos htag hwriter hheld => exact .write hpos htag hwriter hheld
  | plain hplain =>
    rw [capsAfter_plain hplain]
    exact .same (Area.same_perform hplain area)

variable {area' : Area} {held' : Set RestoreCap}

theorem GrantState.isFinal_of_writer {state : GrantState} {cap : Nat → RestoreCap}
    (hwriter : state.writer = some cap) : state.isFinal = false := by
  cases state <;> first | rfl | cases hwriter

theorem Took.accounted (htook : Took held area area' held') (haccounted : area.Accounted) :
    area'.Accounted := by
  cases htook with
  | same hsame => exact haccounted.same hsame
  | move hpos hmoves _ hnote hwritten hold => exact haccounted.move hpos hmoves hold hnote hwritten
  | reserve hfree hless hold => exact haccounted.reserve hold hfree hless
  | write _ htag hwriter _ =>
    exact haccounted.write htag (GrantState.isFinal_of_writer hwriter) _

theorem GrantState.mem_passes (hcap : cap ∈ source.passes target id held) :
    cap ∈ held ∨ (cap = .active id ∧ (target = .active ∨ target = .activeMore) ∧
        source ≠ .active ∧ source ≠ .activeMore) ∨
      cap = .acked id ∧ source = .reaped ∧ target = .acknowledged := by
  unfold passes at hcap
  split at hcap
  · exact hcap.elim (fun hnew => .inr (.inl ⟨hnew, .inl rfl, by decide, by decide⟩)) .inl
  · exact hcap.elim (fun hnew => .inr (.inl ⟨hnew, .inr rfl, by decide, by decide⟩)) .inl
  · exact .inl hcap.1
  · exact .inl hcap.1
  · exact hcap.elim (fun hnew => .inr (.inr ⟨hnew, rfl, rfl⟩)) .inl
  · exact .inl hcap

theorem Took.gained (htook : Took held area area' held') (haccounted : area.Accounted)
    (hcap : cap ∈ held') : cap ∈ held ∨ ¬cap.Backed area ∧ cap.Backed area' := by
  cases htook with
  | same | reserve | write => exact .inl hcap
  | @move id source target note hpos hmoves hheld hnote hwritten hold =>
    rcases mem_passes hcap with hcap | ⟨rfl, htarget, hactive, hmore⟩ | ⟨rfl, rfl, rfl⟩
    · exact .inl hcap
    · refine .inr ⟨?_, target, htarget, by simp [Area.exchanged]⟩
      rintro ⟨state, hstate, htag⟩
      obtain ⟨-, rfl⟩ := tagOf_inj.mp (hold.symm.trans htag)
      exact hstate.elim hactive hmore
    · refine .inr ⟨fun hmoved => ?_, Area.moved_append.mpr (.inr ⟨rfl, rfl⟩)⟩
      rcases haccounted.acknowledged id hmoved with htag | hlater
      · cases (tagOf_inj.mp (hold.symm.trans htag)).2
      · rw [hold, tagOf_div] at hlater
        exact lt_irrefl _ hlater

theorem Took.backed (htook : Took held area area' held')
    (hbacked : cap.Backed area) : cap.Backed area' ∨ cap ∈ held ∧ cap ∉ held' := by
  cases cap with
  | manage => exact .inl trivial
  | acked id =>
    refine .inl ?_
    cases htook with
    | same hsame =>
      rw [RestoreCap.Backed, hsame.log]
      exact hbacked
    | move => exact Area.moved_append.mpr (.inl hbacked)
    | reserve => exact Area.moved_append.mpr (.inl hbacked)
    | write => exact hbacked
  | active id =>
    obtain ⟨state, hstate, htag⟩ := hbacked
    cases htook with
    | same hsame => exact .inl ⟨state, hstate, hsame.tags.symm ▸ htag⟩
    | @move other source target note hpos hmoves hheld hnote hwritten hold =>
      by_cases hslot : slotOf id = slotOf other
      · rw [hslot, hold] at htag
        obtain ⟨rfl, rfl⟩ := tagOf_inj.mp htag
        refine .inr ?_
        rcases hstate with rfl | rfl
        all_goals
          refine ⟨hheld _ (by cases target <;> rfl), ?_⟩
          simp [passes]
      · refine .inl ⟨state, hstate, ?_⟩
        simpa only [Area.exchanged, update_of_ne hslot] using htag
    | @reserve other tag hfree hless hold =>
      refine .inl ⟨state, hstate, Area.tags_reserve hold hfree htag ?_⟩
      rcases hstate with rfl | rfl <;> simp
    | write => exact .inl ⟨state, hstate, htag⟩

def resultDiscipline : Discipline Access.perform RestoreCap where
  Valid := Area.Accounted
  Backed := RestoreCap.Backed
  Permitted held access area := Sanctioned held area access
  after := capsAfter
  valid hvalid hsanctioned := hsanctioned.took.accounted hvalid
  fresh hvalid hsanctioned hcap := (hsanctioned.took.gained hvalid hcap).imp_right And.left
  backed hvalid hsanctioned hheld hcap := by
    rcases hsanctioned.took.gained hvalid hcap with hown | ⟨-, hbacked⟩
    · rcases hsanctioned.took.backed (hheld _ hown) with hbacked | ⟨-, hlost⟩
      · exact hbacked
      · exact absurd hcap hlost
    · exact hbacked
  frame hvalid hsanctioned hother hbacked := by
    rcases hsanctioned.took.backed hbacked with hbacked | ⟨hown, -⟩
    · exact hbacked
    · exact absurd hown hother

end Discipline

end OrbitKV
