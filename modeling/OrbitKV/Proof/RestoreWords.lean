import OrbitKV.Lib.Discipline
import OrbitKV.Proof.RestoreRuns

/-!
# State words of restore grants

Every exchange of a state word moves one operation along the diagram of its states or hands a free
slot to a larger operation.
-/

namespace OrbitKV

open Std GrantState Function

variable {access : Access}

theorem GrantState.not_moves_to_reserved (state : GrantState) : state.moves .reserved = false := by
  cases state <;> rfl

theorem GrantState.not_moves_from_acknowledged (state : GrantState) :
    acknowledged.moves state = false := by
  cases state <;> rfl

theorem GrantState.eq_preparing_of_moves {state : GrantState}
    (hmoves : reserved.moves state = true) (hne : state ≠ .acknowledged) :
    state = .preparing := by
  cases state with
  | preparing => rfl
  | acknowledged => exact absurd rfl hne
  | _ => cases hmoves

inductive Allowed : Slot → Nat → Nat → Prop
  | move {id : Nat} {source target : GrantState} (hpos : 0 < id)
      (hmoves : source.moves target = true) :
      Allowed (slotOf id) (tagOf id source) (tagOf id target)
  | reserve {id tag : Nat} (hfree : tag = 0 ∨ tag % 16 = acknowledged.code)
      (hless : tag / 16 < id) : Allowed (slotOf id) tag (tagOf id .reserved)

def Access.Allowed : Access → Prop
  | .exchange slot old new _ => OrbitKV.Allowed slot old new
  | _ => True

theorem Access.Calm.allowed (hcalm : access.Calm) : access.Allowed := by
  cases access with
  | exchange => exact hcalm.elim
  | _ => trivial

theorem Access.OfPlan.allowed (hplan : access.OfPlan) : access.Allowed := by
  cases access with
  | exchange => exact hplan.elim
  | _ => trivial

theorem RestoreCall.Does.allowed {call : RestoreCall} (hdoes : call.Does access) :
    access.Allowed := by
  cases hdoes with
  | calm hcalm => exact hcalm.allowed
  | move hpos _ hmoves _ => exact .move hpos (RestoreCall.moves_diagram hmoves)
  | reserve _ hfree hless => exact .reserve hfree hless
  | write => trivial
  | plan _ hplan => exact hplan.allowed

theorem allowed_body (call : RestoreCall) : call.body.All Access.Allowed :=
  (does_body call).mono fun _ => RestoreCall.Does.allowed

def Exchange.IsMove (id : Nat) (source target : GrantState) (exchange : Exchange) : Prop :=
  exchange.old = tagOf id source ∧ exchange.new = tagOf id target

def Exchange.IsReservation (id : Nat) (exchange : Exchange) : Prop :=
  exchange.slot = slotOf id ∧ exchange.new = tagOf id .reserved

def Moved (log : List Exchange) (id : Nat) (source target : GrantState) : Prop :=
  ∃ exchange ∈ log, exchange.IsMove id source target

structure Area.Ordered (area : Area) : Prop where
  /-- A word in use belongs to its slot. -/
  placed : ∀ slot, area.tags slot = 0 ∨
    ∃ id state, 0 < id ∧ area.tags slot = tagOf id state ∧ slotOf id = slot
  latest : ∀ exchange ∈ area.log, slotOf (exchange.new / 16) = exchange.slot ∧
    exchange.new / 16 ≤ area.tags exchange.slot / 16
  once : ∀ id, Moved area.log id .reserved .preparing → ¬Moved area.log id .reserved .acknowledged
  admitted : ∀ id source target, Moved area.log id source target → source ≠ .reserved →
    Moved area.log id .reserved .preparing
  current : ∀ id state, area.tags (slotOf id) = tagOf id state → state ≠ .reserved →
    state ≠ .acknowledged → 0 < id → Moved area.log id .reserved .preparing
  untouched : ∀ id, 0 < id → area.tags (slotOf id) = tagOf id .reserved →
    ∀ source target, ¬Moved area.log id source target
  reservations : ∀ before exchange after id, area.log = before ++ exchange :: after →
    exchange.new = tagOf id .reserved →
    (exchange.old = 0 ∨ exchange.old % 16 = acknowledged.code) ∧
      ∀ earlier ∈ before, earlier.slot = exchange.slot → earlier.new / 16 < id

theorem eq_zero_of_tagOf {id : Nat} {state : GrantState} (heq : tagOf id state = 0) : id = 0 := by
  unfold tagOf at heq
  omega

theorem decode_free {tag : Nat} (hfree : tag = 0 ∨ tag % 16 = acknowledged.code) :
    decode tag = some .reserved ∨ decode tag = some .acknowledged := by
  rcases hfree with rfl | hcode
  · exact .inl rfl
  · refine .inr ?_
    rw [decode, hcode]
    rfl

namespace Area

variable {area area' : Area} {id : Nat} {source target : GrantState}
  {exchange last : Exchange}

theorem ordered_new : Area.new.Ordered where
  placed _ := .inl rfl
  latest := by simp [Area.new]
  once := by simp [Area.new, Moved]
  admitted := by simp [Area.new, Moved]
  current id state htag _ _ hpos := absurd (eq_zero_of_tagOf htag.symm) hpos.ne'
  untouched := by simp [Area.new, Moved]
  reservations := by simp [Area.new]

theorem Ordered.congr (hordered : area.Ordered) (htags : area'.tags = area.tags)
    (hlog : area'.log = area.log) : area'.Ordered := by
  obtain ⟨hplaced, hlatest, honce, hadmitted, hcurrent, huntouched, hreservations⟩ := hordered
  rw [← htags] at hplaced
  rw [← htags, ← hlog] at hlatest hcurrent huntouched
  rw [← hlog] at honce hadmitted hreservations
  exact ⟨hplaced, hlatest, honce, hadmitted, hcurrent, huntouched, hreservations⟩

theorem moved_append {log : List Exchange} :
    Moved (log ++ [exchange]) id source target ↔ Moved log id source target ∨
      exchange.old = tagOf id source ∧ exchange.new = tagOf id target := by
  unfold Moved Exchange.IsMove
  simp only [List.mem_append, List.mem_singleton, or_and_right, exists_or, exists_eq_left]

theorem cut_append {log : List Exchange} {before after : List Exchange}
    (hcut : log ++ [last] = before ++ exchange :: after) :
    (∃ rest, log = before ++ exchange :: rest) ∨ log = before ∧ exchange = last := by
  rcases List.eq_nil_or_concat after with rfl | ⟨rest, final, rfl⟩
  · obtain ⟨hlog, hlast⟩ := List.append_inj' hcut rfl
    exact .inr ⟨hlog, (List.singleton_inj.mp hlast).symm⟩
  · rw [List.concat_eq_append, ← List.cons_append, ← List.append_assoc] at hcut
    exact .inl ⟨rest, (List.append_inj' hcut rfl).1⟩

theorem Ordered.latest_update (hordered : area.Ordered) (hslot : slotOf (last.new / 16) = last.slot)
    (hle : area.tags last.slot / 16 ≤ last.new / 16) :
    ∀ exchange ∈ (area.exchanged last).log, slotOf (exchange.new / 16) = exchange.slot ∧
      exchange.new / 16 ≤ (area.exchanged last).tags exchange.slot / 16 := by
  intro exchange hexchange
  rcases List.mem_append.mp hexchange with hold | hnew
  · obtain ⟨hplace, hlatest⟩ := hordered.latest exchange hold
    refine ⟨hplace, ?_⟩
    by_cases hsame : exchange.slot = last.slot
    · rw [hsame] at hlatest ⊢
      simp only [exchanged, update_self]
      exact hlatest.trans hle
    · simp only [exchanged, update_of_ne hsame]
      exact hlatest
  · rw [List.mem_singleton.mp hnew]
    simp only [exchanged, update_self]
    exact ⟨hslot, le_rfl⟩

theorem Ordered.placed_update (hordered : area.Ordered) {state : GrantState}
    (hpos : 0 < id) (hslot : slotOf id = last.slot) (hnew : last.new = tagOf id state) (slot : Slot) :
    (area.exchanged last).tags slot = 0 ∨ ∃ id state, 0 < id ∧
      (area.exchanged last).tags slot = tagOf id state ∧ slotOf id = slot := by
  by_cases hsame : slot = last.slot
  · rw [hsame]
    simp only [exchanged, update_self]
    exact .inr ⟨id, state, hpos, hnew, hslot⟩
  · simp only [exchanged, update_of_ne hsame]
    exact hordered.placed slot

theorem Ordered.move (hordered : area.Ordered) (hpos : 0 < id) (hmoves : source.moves target = true)
    (hold : area.tags (slotOf id) = tagOf id source) (note : Option RestoreResult) :
    (area.exchanged ⟨slotOf id, tagOf id source, tagOf id target, note⟩).Ordered := by
  have hreserved : target ≠ .reserved := by
    rintro rfl
    rw [not_moves_to_reserved] at hmoves
    cases hmoves
  have hack : source ≠ .acknowledged := by
    rintro rfl
    rw [not_moves_from_acknowledged] at hmoves
    cases hmoves
  -- an operation that leaves the reserved state was never moved before
  have hfirst : source = .reserved → ∀ a b, ¬Moved area.log id a b := by
    rintro rfl
    exact hordered.untouched id hpos hold
  have hprepared : source ≠ .reserved → Moved area.log id .reserved .preparing := by
    intro hne
    exact hordered.current id source hold hne hack hpos
  constructor
  case placed => exact hordered.placed_update hpos rfl rfl
  case latest => exact hordered.latest_update (by simp) (by simp [hold])
  case once =>
    intro other hadmitted hcancelled
    simp only [exchanged, moved_append, tagOf_inj] at hadmitted hcancelled
    rcases hadmitted with hadmitted | ⟨⟨rfl, rfl⟩, -, rfl⟩
    · rcases hcancelled with hcancelled | ⟨⟨rfl, rfl⟩, -, rfl⟩
      · exact hordered.once other hadmitted hcancelled
      · exact hfirst rfl _ _ hadmitted
    · rcases hcancelled with hcancelled | ⟨-, -, hne⟩
      · exact hfirst rfl _ _ hcancelled
      · cases hne
  case admitted =>
    intro other a b hmoved hne
    simp only [exchanged, moved_append, tagOf_inj] at hmoved ⊢
    rcases hmoved with hmoved | ⟨⟨rfl, rfl⟩, -, rfl⟩
    · exact .inl (hordered.admitted other a b hmoved hne)
    · exact .inl (hprepared hne)
  case current =>
    intro other state htag hne hnack hother
    simp only [exchanged, moved_append, tagOf_inj]
    by_cases hslot : slotOf other = slotOf id
    · simp only [exchanged, hslot, update_self, tagOf_inj] at htag
      obtain ⟨rfl, rfl⟩ := htag
      by_cases hsource : source = .reserved
      · subst hsource
        exact .inr ⟨⟨rfl, rfl⟩, rfl, eq_preparing_of_moves hmoves hnack⟩
      · exact .inl (hprepared hsource)
    · simp only [exchanged, update_of_ne hslot] at htag
      exact .inl (hordered.current other state htag hne hnack hother)
  case untouched =>
    intro other hother htag a b hmoved
    have hslot : slotOf other ≠ slotOf id := by
      intro hslot
      simp only [exchanged, hslot, update_self, tagOf_inj] at htag
      exact hreserved htag.2
    simp only [exchanged, update_of_ne hslot] at htag
    simp only [exchanged, moved_append, tagOf_inj] at hmoved
    rcases hmoved with hmoved | ⟨⟨rfl, -⟩, -⟩
    · exact hordered.untouched other hother htag a b hmoved
    · exact hslot rfl
  case reservations =>
    intro before exchange after other hcut hnew
    rcases cut_append hcut with ⟨rest, hlog⟩ | ⟨-, rfl⟩
    · exact hordered.reservations before exchange rest other hlog hnew
    · exact absurd (tagOf_inj.mp hnew).2 hreserved

theorem Ordered.reserve (hordered : area.Ordered) {tag : Nat} (hold : area.tags (slotOf id) = tag)
    (hfree : tag = 0 ∨ tag % 16 = acknowledged.code) (hless : tag / 16 < id)
    (note : Option RestoreResult) :
    (area.exchanged ⟨slotOf id, tag, tagOf id .reserved, note⟩).Ordered := by
  have hpos : 0 < id := by omega
  have hlater : ∀ exchange ∈ area.log, exchange.slot = slotOf id → exchange.new / 16 < id := by
    intro exchange hexchange hslot
    have hlatest := (hordered.latest exchange hexchange).2
    rw [hslot, hold] at hlatest
    omega
  have hunmoved : ∀ a b, ¬Moved area.log id a b := by
    rintro a b ⟨exchange, hexchange, -, hnew⟩
    have hplace := (hordered.latest exchange hexchange).1
    have hsmaller := hlater exchange hexchange
    rw [hnew, tagOf_div] at hplace hsmaller
    exact lt_irrefl id (hsmaller hplace.symm)
  have hmoved : ∀ other a b,
      Moved (area.exchanged ⟨slotOf id, tag, tagOf id .reserved, note⟩).log other a b →
        Moved area.log other a b := by
    intro other a b hmoved
    simp only [exchanged, moved_append, tagOf_inj] at hmoved
    rcases hmoved with hmoved | ⟨htag, rfl, -⟩
    · exact hmoved
    · rw [htag, tagOf_div] at hless
      exact absurd hless (lt_irrefl _)
  constructor
  case placed => exact hordered.placed_update hpos rfl rfl
  case latest =>
    refine hordered.latest_update (by simp) ?_
    rw [hold, tagOf_div]
    exact hless.le
  case once =>
    exact fun other hadmitted hcancelled =>
      hordered.once other (hmoved _ _ _ hadmitted) (hmoved _ _ _ hcancelled)
  case admitted =>
    intro other a b hother hne
    simp only [exchanged, moved_append]
    exact .inl (hordered.admitted other a b (hmoved _ _ _ hother) hne)
  case current =>
    intro other state htag hne hnack hother
    have hslot : slotOf other ≠ slotOf id := by
      intro hslot
      simp only [exchanged, hslot, update_self, tagOf_inj] at htag
      exact hne htag.2.symm
    simp only [exchanged, update_of_ne hslot] at htag
    simp only [exchanged, moved_append]
    exact .inl (hordered.current other state htag hne hnack hother)
  case untouched =>
    intro other hother htag a b hmove
    by_cases hslot : slotOf other = slotOf id
    · simp only [exchanged, hslot, update_self, tagOf_inj] at htag
      obtain ⟨rfl, -⟩ := htag
      exact hunmoved a b (hmoved _ _ _ hmove)
    · simp only [exchanged, update_of_ne hslot] at htag
      exact hordered.untouched other hother htag a b (hmoved _ _ _ hmove)
  case reservations =>
    intro before exchange after other hcut hnew
    rcases cut_append hcut with ⟨rest, hlog⟩ | ⟨rfl, rfl⟩
    · exact hordered.reservations before exchange rest other hlog hnew
    · obtain ⟨rfl, -⟩ := tagOf_inj.mp hnew
      exact ⟨hfree, hlater⟩

theorem words_perform (access : Access) (area : Area) :
    (∃ slot old new note, access = .exchange slot old new note) ∨
      (access.perform area).2.tags = area.tags ∧ (access.perform area).2.log = area.log := by
  cases access with
  | exchange slot old new note => exact .inl ⟨slot, old, new, note, rfl⟩
  | fetchNext =>
    refine .inr ?_
    dsimp only [Access.perform, Area.fetchNext]
    split <;> exact ⟨rfl, rfl⟩
  | placePlan id plan =>
    refine .inr ?_
    dsimp only [Access.perform, Area.placePlan]
    split
    · exact ⟨rfl, rfl⟩
    · split <;> exact ⟨rfl, rfl⟩
  | _ => exact .inr ⟨rfl, rfl⟩

theorem Ordered.perform (hordered : area.Ordered) {access : Access} (hallowed : access.Allowed) :
    (access.perform area).2.Ordered := by
  rcases words_perform access area with ⟨slot, old, new, note, rfl⟩ | ⟨htags, hlog⟩
  · rcases exchange_cases area slot old new note with ⟨htag, hresult⟩ | ⟨-, hresult⟩
    · rw [Access.perform, hresult]
      cases hallowed with
      | move hpos hmoves => exact hordered.move hpos hmoves htag note
      | reserve hfree hless => exact hordered.reserve htag hfree hless note
    · rw [Access.perform, hresult]
      exact hordered
  · exact hordered.congr htags hlog

theorem log_perform (access : Access) (area : Area) :
    ∀ exchange ∈ area.log, exchange ∈ (access.perform area).2.log := by
  intro exchange hexchange
  rcases words_perform access area with ⟨slot, old, new, note, rfl⟩ | ⟨-, hlog⟩
  · rcases exchange_cases area slot old new note with ⟨-, hresult⟩ | ⟨-, hresult⟩
    · rw [Access.perform, hresult]
      exact List.mem_append_left _ hexchange
    · rw [Access.perform, hresult]
      exact hexchange
  · rw [hlog]
    exact hexchange

theorem mem_log_perform {access : Access} {area : Area}
    (hexchange : exchange ∈ (access.perform area).2.log) : exchange ∈ area.log ∨
      access = .exchange exchange.slot exchange.old exchange.new exchange.note := by
  rcases words_perform access area with ⟨slot, old, new, note, rfl⟩ | ⟨-, hlog⟩
  · rcases exchange_cases area slot old new note with ⟨-, hresult⟩ | ⟨-, hresult⟩
    · rw [Access.perform, hresult] at hexchange
      rcases List.mem_append.mp hexchange with hold | hnew
      · exact .inl hold
      · rw [List.mem_singleton.mp hnew]
        exact .inr rfl
    · rw [Access.perform, hresult] at hexchange
      exact .inl hexchange
  · exact .inl (hlog ▸ hexchange)

end Area

end OrbitKV
