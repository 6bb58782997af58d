import OrbitKV.Lib.OrderedMap
import OrbitKV.Proof.RestoreWords
import OrbitKV.Server.Restore

/-!
# Owners of restore sources

Sources have one owner at a time, which gives them back only while no part that they back can be
claimed or is active; only the engine ends the active state of a plan.
-/

namespace OrbitKV

open Std Manager Function

/-! ### States -/

namespace GrantState

def isActive : GrantState → Bool
  | .active | .activeMore => true
  | _ => false

def isLive (state : GrantState) : Bool :=
  state.isGranted || state.isActive

def isOver : GrantState → Bool
  | .drained | .revoked | .reaped | .acknowledged => true
  | _ => false

variable {source target : GrantState}

theorem isLive_of_moves (hmoves : source.moves target = true) (hlive : target.isLive = true)
    (hgranted : target.isGranted = false) : source.isLive = true := by
  cases target <;> first | exact absurd hlive (by decide) | exact absurd hgranted (by decide) | skip
  all_goals cases source <;> first | rfl | exact absurd hmoves (by decide)

theorem isOver_of_moves (hmoves : source.moves target = true) (hover : source.isOver = true) :
    target.isOver = true := by
  cases source <;> first | exact absurd hover (by decide) | skip
  all_goals cases target <;> first | rfl | exact absurd hmoves (by decide)

theorem not_granted_of_moves (hmoves : source.moves target = true)
    (hactive : source.isActive = true) : target.isGranted = false := by
  cases source <;> first | exact absurd hactive (by decide) | skip
  all_goals cases target <;> first | rfl | exact absurd hmoves (by decide)

theorem not_live_of_isOver (hover : source.isOver = true) : source.isLive = false := by
  cases source <;> first | rfl | exact absurd hover (by decide)

end GrantState

namespace Area

def Live (area : Area) (id : Nat) : Prop :=
  ∃ state : GrantState, state.isLive = true ∧ area.tags (slotOf id) = tagOf id state

def Active (area : Area) (id : Nat) : Prop :=
  ∃ state : GrantState, state.isActive = true ∧ area.tags (slotOf id) = tagOf id state

def Over (area : Area) (id : Nat) : Prop :=
  id < area.tags (slotOf id) / 16 ∨
    ∃ state : GrantState, state.isOver = true ∧ area.tags (slotOf id) = tagOf id state

variable {area : Area} {id : Nat} {state : GrantState}

theorem not_live_of_state (hstate : area.tags (slotOf id) = tagOf id state)
    (hlive : state.isLive = false) : ¬area.Live id := by
  rintro ⟨other, hother, htag⟩
  obtain ⟨-, rfl⟩ := tagOf_inj.mp (hstate.symm.trans htag)
  rw [hlive] at hother
  cases hother

theorem Over.not_live (hover : area.Over id) : ¬area.Live id := by
  rcases hover with hlater | ⟨state, hover, htag⟩
  · rintro ⟨state, -, htag⟩
    rw [htag, tagOf_div] at hlater
    omega
  · exact not_live_of_state htag (GrantState.not_live_of_isOver hover)

end Area

theorem free_ne_active {id tag : Nat} {state : GrantState}
    (hfree : tag = 0 ∨ tag % 16 = GrantState.acknowledged.code) (hactive : state.isActive = true) :
    tag ≠ tagOf id state := by
  rintro rfl
  rcases decode_free hfree with hdecode | hdecode
  all_goals
    rw [decode_tagOf] at hdecode
    cases hdecode
    exact absurd hactive (by decide)

/-! ### Capabilities -/

inductive ManagerCap where
  /-- The sources are owned. -/
  | source (key : SourceKey)
  /-- The engine is about to claim a plan of the operation or to report its drain. -/
  | engine (id : Nat)
  /-- The engine is about to report a drain. -/
  | report (id : Nat)

def SourceGrant.cap (owner : SourceGrant) : ManagerCap :=
  .source owner.source.key

def ReapTask.owners (task : ReapTask) : List SourceGrant :=
  task.grants.toList.map Prod.snd

def ReapTask.Owned (held : Set ManagerCap) (task : ReapTask) : Prop :=
  ∀ (id : Nat) owner, task.grants[id]? = some owner → owner.id = id ∧ owner.cap ∈ held

namespace Manager

def owners (m : Manager) : List SourceGrant :=
  m.queue ++ m.task.elim [] ReapTask.owners

def keys (m : Manager) : List SourceKey :=
  m.owners.map fun owner => owner.source.key

def Safe (m : Manager) (key : SourceKey) : Prop :=
  ∀ id, m.granting id = some key → ¬m.area.Live id

structure Valid (m : Manager) : Prop where
  /-- A word in use belongs to its slot. -/
  placed : ∀ slot, m.area.tags slot = 0 ∨
    ∃ id state, m.area.tags slot = tagOf id state ∧ slotOf id = slot
  bound : ∀ id key, m.granting id = some key → key.operation = id ∧ key.serial < m.nextSerial
  /-- **Sources are there while they are needed.** -/
  backed : ∀ id, m.area.Live id → ∃ key, m.granting id = some key ∧ key ∉ m.released
  keyed : ∀ task ∈ m.task, ∀ (id : Nat) owner, task.grants[id]? = some owner → owner.id = id
  distinct : m.keys.Nodup
  owned : ∀ key ∈ m.keys, key.serial < m.nextSerial ∧ key ∉ m.released
  gone : ∀ key ∈ m.released, key.serial < m.nextSerial
  claimed : ∀ id, m.claimed id = true → m.area.Active id

end Manager

def ManagerCap.Backed : ManagerCap → Manager → Prop
  | .source key, m => key.serial < m.nextSerial ∧ key ∉ m.released ∧ key ∉ m.keys
  | .engine _, _ | .report _, _ => True

/-- The access to the area is no exchange, or an exchange that the capabilities permit. -/
inductive Admitted (held : Set ManagerCap) (m : Manager) (publishing : Option SourceKey) :
    Access → Prop
  | other {access : Access} (hother : ∀ slot old new note, access ≠ .exchange slot old new note) :
      Admitted held m publishing access
  | reserve {id tag : Nat} (hnone : publishing = none)
      (hfree : tag = 0 ∨ tag % 16 = GrantState.acknowledged.code) (hless : tag / 16 < id) :
      Admitted held m publishing (.exchange (slotOf id) tag (tagOf id .reserved) none)
  | move {id : Nat} {source target : GrantState} {note : Option RestoreResult}
      (hnone : publishing = none) (hmoves : source.moves target = true)
      (hgranted : target.isGranted = false)
      (hactive : source.isActive = true → .engine id ∈ held ∧ m.claimed id = false) :
      Admitted held m publishing (.exchange (slotOf id) (tagOf id source) (tagOf id target) note)
  | grant {key : SourceKey} {source target : GrantState} {note : Option RestoreResult}
      (hsome : publishing = some key) (hcap : .source key ∈ held)
      (hbacked : (ManagerCap.source key).Backed m)
      (hmoves : source.moves target = true) (hgranted : target.isGranted = true) :
      Admitted held m publishing (.exchange (slotOf key.operation) (tagOf key.operation source)
        (tagOf key.operation target) note)

/-- **What an access to the area changes.** -/
inductive Altered (held : Set ManagerCap) (m : Manager) : Manager → Prop
  | same {area : Area} (htags : area.tags = m.area.tags) : Altered held m { m with area := area }
  | reserve {area : Area} {id : Nat}
      (hfree : m.area.tags (slotOf id) = 0 ∨
        m.area.tags (slotOf id) % 16 = GrantState.acknowledged.code)
      (hless : m.area.tags (slotOf id) / 16 < id)
      (htags : area.tags = update m.area.tags (slotOf id) (tagOf id .reserved)) :
      Altered held m { m with area := area }
  | move {area : Area} {id : Nat} {source target : GrantState}
      (hmoves : source.moves target = true) (hgranted : target.isGranted = false)
      (hactive : source.isActive = true → .engine id ∈ held ∧ m.claimed id = false)
      (hold : m.area.tags (slotOf id) = tagOf id source)
      (htags : area.tags = update m.area.tags (slotOf id) (tagOf id target)) :
      Altered held m { m with area := area }
  | grant {area : Area} {key : SourceKey} {source target : GrantState} (hcap : .source key ∈ held)
      (hbacked : (ManagerCap.source key).Backed m)
      (hmoves : source.moves target = true) (hgranted : target.isGranted = true)
      (hold : m.area.tags (slotOf key.operation) = tagOf key.operation source)
      (htags : area.tags = update m.area.tags (slotOf key.operation) (tagOf key.operation target)) :
      Altered held m { m with
        area := area
        granting := update m.granting key.operation (some key) }

section Areas

variable {held : Set ManagerCap} {m m' : Manager} {publishing : Option SourceKey} {access : Access}
  {area : Area} {other : Nat} {target : GrantState}

theorem grantingAfter_other (hother : ∀ slot old new note, access ≠ .exchange slot old new note) :
    m.grantingAfter access publishing = m.granting := by
  cases access with
  | exchange slot old new note => exact absurd rfl (hother slot old new note)
  | _ => rfl

theorem altered_other (hother : ∀ slot old new note, access ≠ .exchange slot old new note) :
    Altered held m ((ManagerAccess.area access publishing).perform m).2 := by
  rcases Area.words_perform access m.area with ⟨slot, old, new, note, rfl⟩ | ⟨htags, -⟩
  · exact absurd rfl (hother slot old new note)
  · rw [ManagerAccess.perform, grantingAfter_other hother]
    exact .same htags

theorem perform_failed {slot : Slot} {old new : Nat} {note : Option RestoreResult}
    (htag : m.area.tags slot ≠ old) :
    (ManagerAccess.area (.exchange slot old new note) publishing).perform m = (false, m) := by
  have hgranting : m.grantingAfter (.exchange slot old new note) publishing = m.granting := by
    cases publishing with
    | none => rfl
    | some key => rw [grantingAfter, if_neg htag]
  rw [ManagerAccess.perform, hgranting, Access.perform, Area.exchange, if_neg htag]

theorem altered_failed {slot : Slot} {old new : Nat} {note : Option RestoreResult}
    (htag : m.area.tags slot ≠ old) :
    Altered held m ((ManagerAccess.area (.exchange slot old new note) publishing).perform m).2 := by
  rw [perform_failed htag]
  exact .same rfl

theorem Admitted.altered (hadmitted : Admitted held m publishing access) :
    Altered held m ((ManagerAccess.area access publishing).perform m).2 := by
  cases hadmitted with
  | other hother => exact altered_other hother
  | @reserve id tag hnone hfree hless =>
    by_cases htag : m.area.tags (slotOf id) = tag
    · subst hnone htag
      rw [ManagerAccess.perform, Access.perform, Area.exchange, if_pos rfl]
      exact .reserve hfree hless rfl
    · exact altered_failed htag
  | @move id source target note hnone hmoves hgranted hactive =>
    by_cases htag : m.area.tags (slotOf id) = tagOf id source
    · subst hnone
      rw [ManagerAccess.perform, Access.perform, Area.exchange, if_pos htag]
      exact .move hmoves hgranted hactive htag rfl
    · exact altered_failed htag
  | @grant key source target note hsome hcap hbacked hmoves hgranted =>
    by_cases htag : m.area.tags (slotOf key.operation) = tagOf key.operation source
    · subst hsome
      rw [ManagerAccess.perform, Access.perform, Area.exchange, if_pos htag,
        grantingAfter, if_pos htag, tagOf_div]
      exact .grant hcap hbacked hmoves hgranted htag rfl
    · exact altered_failed htag

variable {id : Nat}

theorem tags_update {state : GrantState}
    (htags : area.tags = update m.area.tags (slotOf other) (tagOf other target))
    (htag : area.tags (slotOf id) = tagOf id state) :
    id = other ∧ state = target ∨ id ≠ other ∧ m.area.tags (slotOf id) = tagOf id state := by
  rw [htags] at htag
  by_cases hslot : slotOf id = slotOf other
  · rw [hslot, update_self] at htag
    obtain ⟨rfl, rfl⟩ := tagOf_inj.mp htag
    exact .inl ⟨rfl, rfl⟩
  · rw [update_of_ne hslot] at htag
    exact .inr ⟨fun hid => hslot (hid ▸ rfl), htag⟩

theorem Altered.granting (haltered : Altered held m m') (id : Nat) :
    m'.granting id = m.granting id ∨
      ∃ key : SourceKey, .source key ∈ held ∧ (ManagerCap.source key).Backed m ∧
        key.operation = id ∧ m'.granting id = some key := by
  cases haltered with
  | same | reserve | move => exact .inl rfl
  | @grant _ key _ _ hcap hbacked =>
    by_cases hid : id = key.operation
    · subst hid
      exact .inr ⟨key, hcap, hbacked, rfl, update_self ..⟩
    · exact .inl (update_of_ne hid ..)

theorem Altered.live (haltered : Altered held m m') (hlive : m'.area.Live id) :
    m.area.Live id ∧ m'.granting id = m.granting id ∨
      ∃ key : SourceKey, .source key ∈ held ∧ (ManagerCap.source key).Backed m ∧
        key.operation = id ∧ m'.granting id = some key := by
  obtain ⟨state, hstate, htag⟩ := hlive
  cases haltered with
  | same htags =>
    rw [htags] at htag
    exact .inl ⟨⟨state, hstate, htag⟩, rfl⟩
  | reserve hfree hless htags =>
    rcases tags_update htags htag with ⟨-, rfl⟩ | ⟨-, hold⟩
    · exact absurd hstate (by decide)
    · exact .inl ⟨⟨state, hstate, hold⟩, rfl⟩
  | move hmoves hgranted hactive hold htags =>
    rcases tags_update htags htag with ⟨rfl, rfl⟩ | ⟨-, hkept⟩
    · exact .inl ⟨⟨_, GrantState.isLive_of_moves hmoves hstate hgranted, hold⟩, rfl⟩
    · exact .inl ⟨⟨state, hstate, hkept⟩, rfl⟩
  | grant hcap hbacked hmoves hgranted hold htags =>
    rcases tags_update htags htag with ⟨rfl, rfl⟩ | ⟨hne, hkept⟩
    · exact .inr ⟨_, hcap, hbacked, rfl, update_self ..⟩
    · exact .inl ⟨⟨state, hstate, hkept⟩, update_of_ne hne ..⟩

theorem tags_cases (id : Nat) {value : Nat}
    (htags : area.tags = update m.area.tags (slotOf other) value) :
    slotOf id = slotOf other ∧ area.tags (slotOf id) = value ∨
      area.tags (slotOf id) = m.area.tags (slotOf id) := by
  rw [htags]
  by_cases hslot : slotOf id = slotOf other
  · rw [hslot, update_self]
    exact .inl ⟨rfl, rfl⟩
  · rw [update_of_ne hslot]
    exact .inr rfl

theorem Area.Over.moved {source : GrantState} (hover : m.area.Over id)
    (hmoves : source.moves target = true) (hold : m.area.tags (slotOf other) = tagOf other source)
    (htags : area.tags = update m.area.tags (slotOf other) (tagOf other target)) :
    area.Over id := by
  unfold Area.Over at hover ⊢
  rcases tags_cases id htags with ⟨hslot, htag⟩ | htag
  · rw [htag, tagOf_div]
    rw [hslot, hold, tagOf_div] at hover
    rcases hover with hlater | ⟨state, hstate, heq⟩
    · exact .inl hlater
    · obtain ⟨rfl, rfl⟩ := tagOf_inj.mp heq
      exact .inr ⟨target, GrantState.isOver_of_moves hmoves hstate, rfl⟩
  · rw [htag]
    exact hover

theorem Altered.over (haltered : Altered held m m') (hover : m.area.Over id) : m'.area.Over id := by
  cases haltered with
  | same htags =>
    unfold Area.Over at hover ⊢
    rwa [htags]
  | @reserve area other hfree hless htags =>
    unfold Area.Over at hover ⊢
    rcases tags_cases id htags with ⟨hslot, htag⟩ | htag
    · rw [htag, tagOf_div]
      rw [hslot] at hover
      rcases hover with hlater | ⟨state, -, heq⟩
      · exact .inl (by omega)
      · rw [heq, tagOf_div] at hless
        exact .inl hless
    · rwa [htag]
  | move hmoves hgranted hactive hold htags => exact hover.moved hmoves hold htags
  | grant hcap hbacked hmoves hgranted hold htags => exact hover.moved hmoves hold htags

theorem Altered.active (haltered : Altered held m m') {state : GrantState}
    (hactive : state.isActive = true) (htag : m.area.tags (slotOf id) = tagOf id state) :
    m'.area.tags (slotOf id) = tagOf id state ∨ .engine id ∈ held ∧ m.claimed id = false := by
  cases haltered with
  | same htags => exact .inl (by rwa [htags])
  | reserve hfree hless htags =>
    rcases tags_cases id htags with ⟨hslot, -⟩ | hsame
    · rw [hslot] at htag
      exact absurd htag (free_ne_active hfree hactive)
    · exact .inl (hsame.trans htag)
  | move hmoves hgranted hdrain hold htags =>
    rcases tags_cases id htags with ⟨hslot, -⟩ | hsame
    · rw [hslot] at htag
      obtain ⟨rfl, rfl⟩ := tagOf_inj.mp (hold.symm.trans htag)
      exact .inr (hdrain hactive)
    · exact .inl (hsame.trans htag)
  | grant hcap hbacked hmoves hgranted hold htags =>
    rcases tags_cases id htags with ⟨hslot, -⟩ | hsame
    · rw [hslot] at htag
      obtain ⟨-, rfl⟩ := tagOf_inj.mp (hold.symm.trans htag)
      rw [GrantState.not_granted_of_moves hmoves hactive] at hgranted
      cases hgranted
    · exact .inl (hsame.trans htag)

theorem Altered.frame (haltered : Altered held m m') :
    m'.released = m.released ∧ m'.keys = m.keys ∧ m'.nextSerial = m.nextSerial ∧
      m'.claimed = m.claimed := by
  cases haltered <;> exact ⟨rfl, rfl, rfl, rfl⟩

theorem placed_update
    (htags : area.tags = update m.area.tags (slotOf other) (tagOf other target))
    (hplaced : ∀ slot, m.area.tags slot = 0 ∨
      ∃ id state, m.area.tags slot = tagOf id state ∧ slotOf id = slot) (slot : Slot) :
    area.tags slot = 0 ∨ ∃ id state, area.tags slot = tagOf id state ∧ slotOf id = slot := by
  rw [htags]
  by_cases hslot : slot = slotOf other
  · rw [hslot, update_self]
    exact .inr ⟨other, target, rfl, rfl⟩
  · rw [update_of_ne hslot]
    exact hplaced slot

theorem Altered.placed (haltered : Altered held m m')
    (hplaced : ∀ slot, m.area.tags slot = 0 ∨
      ∃ id state, m.area.tags slot = tagOf id state ∧ slotOf id = slot) :
    ∀ slot, m'.area.tags slot = 0 ∨
      ∃ id state, m'.area.tags slot = tagOf id state ∧ slotOf id = slot := by
  cases haltered with
  | same htags => exact htags ▸ hplaced
  | reserve _ _ htags => exact placed_update htags hplaced
  | move _ _ _ _ htags => exact placed_update htags hplaced
  | grant _ _ _ _ _ htags => exact placed_update htags hplaced

theorem Altered.valid (haltered : Altered held m m') (hm : m.Valid) : m'.Valid := by
  obtain ⟨hreleased, hkeys, hserial, hclaimed⟩ := haltered.frame
  constructor
  case placed => exact haltered.placed hm.placed
  case bound =>
    intro id key hgranting
    rw [hserial]
    rcases haltered.granting id with hkept | ⟨new, -, hbacked, hid, hnew⟩
    · exact hm.bound id key (hkept ▸ hgranting)
    · obtain rfl := Option.some.inj (hnew.symm.trans hgranting)
      exact ⟨hid, hbacked.1⟩
  case backed =>
    intro id hlive
    rw [hreleased]
    rcases haltered.live hlive with ⟨hold, hgranting⟩ | ⟨key, -, hbacked, -, hgranting⟩
    · rw [hgranting]
      exact hm.backed id hold
    · exact ⟨key, hgranting, hbacked.2.1⟩
  case keyed => cases haltered <;> exact hm.keyed
  case distinct => exact hkeys ▸ hm.distinct
  case owned =>
    rw [hkeys, hserial, hreleased]
    exact hm.owned
  case gone =>
    rw [hserial, hreleased]
    exact hm.gone
  case claimed =>
    intro id hid
    rw [hclaimed] at hid
    obtain ⟨state, hactive, htag⟩ := hm.claimed id hid
    rcases haltered.active hactive htag with hkept | ⟨-, hfalse⟩
    · exact ⟨state, hactive, hkept⟩
    · rw [hid] at hfalse
      cases hfalse

end Areas

/-! ### The discipline -/

def capsOf (owners : List SourceGrant) : Set ManagerCap :=
  {cap | ∃ owner ∈ owners, owner.cap = cap}

def PermittedAccess (held : Set ManagerCap) : ManagerAccess → Manager → Prop
  | .area access publishing, m => Admitted held m publishing access
  | .send owner, m => owner.cap ∈ held ∧ owner.cap.Backed m
  | .putTask task, m => task.Owned held ∧ ∀ owner ∈ task.owners, owner.cap.Backed m
  | .release source, m => .source source.key ∈ held ∧ (ManagerCap.source source.key).Backed m ∧
      m.Safe source.key
  | .quarantine owner, m => owner.cap ∈ held ∧ owner.cap.Backed m
  | .claimed id, m => .engine id ∈ held ∧ m.area.Active id
  | .reporting id, _ => .engine id ∈ held ∧ .report id ∈ held
  | _, _ => True

def ownedAfter (held : Set ManagerCap) : (access : ManagerAccess) → access.Answer → Set ManagerCap
  | .prepare .., source => insert (.source source.key) held
  | .send owner, sent => if sent then held \ {owner.cap} else held
  | .receive, .owner owner => insert owner.cap held
  | .closeReceiver, owners => held ∪ capsOf owners
  | .takeTask, some task => held ∪ capsOf task.owners
  | .putTask task, _ => held \ capsOf task.owners
  | .release source, _ => held \ {.source source.key}
  | .quarantine owner, _ => held \ {owner.cap}
  | _, _ => held


structure Manager.Books (m m' : Manager) : Prop where
  area : m'.area = m.area
  granting : m'.granting = m.granting
  claimed : m'.claimed = m.claimed
  released : m'.released = m.released
  nextSerial : m'.nextSerial = m.nextSerial
  keyed : ∀ task ∈ m'.task, ∀ (id : Nat) owner, task.grants[id]? = some owner → owner.id = id
  distinct : m'.keys.Nodup

/-- **What a permitted access does** to the Manager and to the capabilities. -/
inductive Happened (held : Set ManagerCap) (m : Manager) : Manager → Set ManagerCap → Prop
  | altered {m' : Manager} (haltered : Altered held m m') : Happened held m m' held
  | put {m' : Manager} (owners : List SourceGrant) (hbooks : m.Books m')
      (hcaps : capsOf owners ⊆ held) (hbacked : ∀ owner ∈ owners, owner.cap.Backed m)
      (hkeys : ∀ key ∈ m'.keys, key ∈ m.keys ∨ .source key ∈ capsOf owners) :
      Happened held m m' (held \ capsOf owners)
  | take {m' : Manager} (owners : List SourceGrant) (hbooks : m.Books m')
      (htaken : ∀ owner ∈ owners, owner.source.key ∈ m.keys ∧ owner.source.key ∉ m'.keys)
      (hkeys : ∀ key ∈ m'.keys, key ∈ m.keys) : Happened held m m' (held ∪ capsOf owners)
  | prepare {m' : Manager} (id : Nat)
      (hm' : m' = { m with nextSerial := m.nextSerial + 1 }) :
      Happened held m m' (insert (.source ⟨id, m.nextSerial⟩) held)
  | release {m' : Manager} {key : SourceKey} (hcap : .source key ∈ held)
      (hbacked : (ManagerCap.source key).Backed m) (hsafe : m.Safe key)
      (hm' : m' = { m with released := m.released ++ [key] }) :
      Happened held m m' (held \ {.source key})
  | claim {m' : Manager} {id : Nat} {value : Bool} (hcap : .engine id ∈ held)
      (hactive : value = true → m.area.Active id) (hreport : value = false → .report id ∈ held)
      (hm' : m' = { m with claimed := update m.claimed id value }) :
      Happened held m m' held

section Steps

variable {held held' : Set ManagerCap} {m m' : Manager} {access : ManagerAccess} {cap : ManagerCap}

theorem mem_capsOf {owners : List SourceGrant} {key : SourceKey} :
    .source key ∈ capsOf owners ↔ key ∈ owners.map fun owner => owner.source.key := by
  simp [capsOf, SourceGrant.cap]

theorem ReapTask.Owned.distinct {task : ReapTask}
    (hkeyed : ∀ (id : Nat) owner, task.grants[id]? = some owner → owner.id = id) :
    (task.owners.map fun owner => owner.source.key).Nodup := by
  rw [ReapTask.owners, List.map_map, List.Nodup, List.pairwise_map]
  refine (distinct_fst_toList task.grants).imp_of_mem fun {a b} ha hb hne hkey => hne ?_
  have hfirst := hkeyed a.1 a.2 (ExtTreeMap.mem_toList_iff_getElem?_eq_some.mp ha)
  have hsecond := hkeyed b.1 b.2 (ExtTreeMap.mem_toList_iff_getElem?_eq_some.mp hb)
  rw [← hfirst, ← hsecond]
  exact congrArg SourceKey.operation hkey

theorem Manager.Valid.books (hm : m.Valid) : m.Books m :=
  ⟨rfl, rfl, rfl, rfl, rfl, hm.keyed, hm.distinct⟩

theorem Manager.keys_eq (m : Manager) : m.keys = m.queue.map (fun owner => owner.source.key) ++
    (m.task.elim [] ReapTask.owners).map fun owner => owner.source.key :=
  List.map_append

theorem Happened.same (hbooks : m.Books m') (hkeys : m'.keys = m.keys) : Happened held m m' held := by
  have hnone : capsOf [] = ∅ := by simp [capsOf]
  have hput : Happened held m m' (held \ capsOf []) :=
    .put [] hbooks (hnone ▸ Set.empty_subset held) (by simp) fun key hkey => .inl (hkeys ▸ hkey)
  rwa [hnone, Set.sdiff_empty] at hput

theorem capsOf_singleton (owner : SourceGrant) : capsOf [owner] = {owner.cap} := by
  ext cap
  simp [capsOf, eq_comm]

theorem happened_send {owner : SourceGrant} (hm : m.Valid) (hcap : owner.cap ∈ held)
    (hbacked : owner.cap.Backed m) : Happened held m (m.send owner).2
      (ownedAfter held (.send owner) (m.send owner).1) := by
  unfold send
  split
  case isFalse => exact .same hm.books rfl
  case isTrue =>
    have hperm : ({ m with queue := m.queue ++ [owner] } : Manager).keys.Perm
        (owner.source.key :: m.keys) := by
      simp only [keys, owners, List.append_assoc, List.map_append, List.map_cons]
      exact List.perm_middle
    rw [ownedAfter, if_pos rfl, ← capsOf_singleton]
    refine .put [owner] ⟨rfl, rfl, rfl, rfl, rfl, hm.keyed, ?_⟩ ?_ ?_ ?_
    · exact hperm.nodup_iff.mpr (List.nodup_cons.mpr ⟨hbacked.2.2, hm.distinct⟩)
    · rw [capsOf_singleton]
      exact Set.singleton_subset_iff.mpr hcap
    · simpa using hbacked
    · intro key hkey
      rcases List.mem_cons.mp (hperm.mem_iff.mp hkey) with rfl | hold
      · exact .inr (by simp [mem_capsOf])
      · exact .inl hold

theorem happened_receive (hm : m.Valid) : Happened held m m.receive.2
    (ownedAfter held .receive m.receive.1) := by
  unfold receive
  split
  case h_2 hqueue =>
    split <;> exact .same hm.books rfl
  case h_1 owner queue hqueue =>
    have hkeys : m.keys = owner.source.key :: ({ m with queue := queue } : Manager).keys := by
      simp [keys, owners, hqueue]
    have hdistinct := hm.distinct
    rw [hkeys, List.nodup_cons] at hdistinct
    change Happened held m { m with queue := queue } (insert owner.cap held)
    rw [← Set.union_singleton, ← capsOf_singleton]
    refine .take [owner] ⟨rfl, rfl, rfl, rfl, rfl, hm.keyed, hdistinct.2⟩ ?_ fun key hkey => ?_
    · simpa only [List.mem_singleton, forall_eq, hkeys] using ⟨List.mem_cons_self, hdistinct.1⟩
    · rw [hkeys]
      exact List.mem_cons_of_mem _ hkey

theorem happened_putTask {task : ReapTask} (hm : m.Valid) (howned : task.Owned held)
    (hbacked : ∀ owner ∈ task.owners, owner.cap.Backed m) :
    Happened held m { m with task := some task } (held \ capsOf task.owners) := by
  have hkeyed : ∀ (id : Nat) owner, task.grants[id]? = some owner → owner.id = id :=
    fun id owner hget => (howned id owner hget).1
  have hdistinct := hm.distinct
  rw [keys_eq, List.nodup_append] at hdistinct
  refine .put task.owners ⟨rfl, rfl, rfl, rfl, rfl, ?_, ?_⟩ ?_ hbacked ?_
  · rintro other ⟨rfl⟩
    exact hkeyed
  · rw [keys_eq, List.nodup_append]
    refine ⟨hdistinct.1, ReapTask.Owned.distinct hkeyed, fun a ha b hb hab => ?_⟩
    obtain ⟨owner, howner, rfl⟩ := List.mem_map.mp hb
    refine (hbacked owner howner).2.2 ?_
    rw [keys_eq]
    exact List.mem_append_left _ (hab ▸ ha)
  · rintro cap ⟨owner, howner, rfl⟩
    obtain ⟨⟨id, other⟩, hmem, rfl⟩ := List.mem_map.mp howner
    exact (howned id other (ExtTreeMap.mem_toList_iff_getElem?_eq_some.mp hmem)).2
  · intro key hkey
    rw [keys_eq] at hkey ⊢
    rcases List.mem_append.mp hkey with hqueue | htask
    · exact .inl (List.mem_append_left _ hqueue)
    · exact .inr (mem_capsOf.mpr htask)

theorem happened_takeTask (hm : m.Valid) : Happened held m { m with task := none }
    (ownedAfter held .takeTask m.task) := by
  have hdistinct := hm.distinct
  rw [keys_eq, List.nodup_append] at hdistinct
  have hbooks : m.Books { m with task := none } := by
    refine ⟨rfl, rfl, rfl, rfl, rfl, by simp, ?_⟩
    simpa [keys, owners] using hdistinct.1
  have hkeys : ∀ key ∈ ({ m with task := none } : Manager).keys, key ∈ m.keys := by
    intro key hkey
    rw [keys_eq] at hkey ⊢
    refine List.mem_append_left _ ?_
    simpa using hkey
  cases htask : m.task with
  | none =>
    refine .same hbooks ?_
    simp [keys, owners, htask]
  | some task =>
    rw [htask] at hdistinct
    refine .take task.owners hbooks (fun owner howner => ?_) hkeys
    have hmem := List.mem_map_of_mem (f := fun owner => owner.source.key) howner
    refine ⟨?_, fun hqueue => ?_⟩
    · rw [keys_eq, htask]
      exact List.mem_append_right _ hmem
    · refine hdistinct.2.2 owner.source.key ?_ _ hmem rfl
      simpa [keys, owners] using hqueue

theorem happened_closeReceiver (hm : m.Valid) :
    Happened held m { m with queue := [], isReceiving := false } (held ∪ capsOf m.queue) := by
  have hdistinct := hm.distinct
  rw [keys_eq, List.nodup_append] at hdistinct
  have hkeys : ({ m with queue := [], isReceiving := false } : Manager).keys =
      (m.task.elim [] ReapTask.owners).map fun owner => owner.source.key := by
    simp [keys, owners]
  refine .take m.queue ⟨rfl, rfl, rfl, rfl, rfl, hm.keyed, ?_⟩ (fun owner howner => ?_) ?_
  · rw [hkeys]
    exact hdistinct.2.1
  · have hmem := List.mem_map_of_mem (f := fun owner => owner.source.key) howner
    refine ⟨?_, fun htask => ?_⟩
    · rw [keys_eq]
      exact List.mem_append_left _ hmem
    · rw [hkeys] at htask
      exact hdistinct.2.2 _ hmem _ htask rfl
  · intro key hkey
    rw [hkeys] at hkey
    rw [keys_eq]
    exact List.mem_append_right _ hkey

theorem happened (hm : m.Valid) (hpermitted : PermittedAccess held access m) :
    Happened held m (access.perform m).2 (ownedAfter held access (access.perform m).1) := by
  have hbooks : ∀ m', m'.area = m.area → m'.granting = m.granting → m'.claimed = m.claimed →
      m'.released = m.released → m'.nextSerial = m.nextSerial → m'.task = m.task →
      m'.queue = m.queue → Happened held m m' held := by
    intro m' harea hgranting hclaimed hreleased hserial htask hqueue
    have hkeys : m'.keys = m.keys := by rw [keys_eq, keys_eq, htask, hqueue]
    refine .same ⟨harea, hgranting, hclaimed, hreleased, hserial, ?_, ?_⟩ hkeys
    · exact htask ▸ hm.keyed
    · exact hkeys ▸ hm.distinct
  cases access with
  | area access publishing => exact .altered (Admitted.altered hpermitted)
  | environment | setEnvironment | isOpen | closeSession | restoreMetadata =>
    exact hbooks _ rfl rfl rfl rfl rfl rfl rfl
  | acquire bytes =>
    dsimp only [ManagerAccess.perform, acquire]
    split <;> exact hbooks _ rfl rfl rfl rfl rfl rfl rfl
  | prepare id plan later => exact .prepare id rfl
  | send owner => exact happened_send hm hpermitted.1 hpermitted.2
  | receive => exact happened_receive hm
  | closeReceiver => exact happened_closeReceiver hm
  | takeTask => exact happened_takeTask hm
  | putTask task => exact happened_putTask hm hpermitted.1 hpermitted.2
  | release source => exact .release hpermitted.1 hpermitted.2.1 hpermitted.2.2 rfl
  | quarantine owner =>
    obtain ⟨hcap, hbacked⟩ := hpermitted
    rw [ownedAfter, ← capsOf_singleton]
    refine .put [owner] ⟨rfl, rfl, rfl, rfl, rfl, hm.keyed, hm.distinct⟩ ?_ ?_ fun _ => .inl
    · rw [capsOf_singleton]
      exact Set.singleton_subset_iff.mpr hcap
    · simpa using hbacked
  | claimed id => exact .claim hpermitted.1 (fun _ => hpermitted.2) (by simp) rfl
  | reporting id => exact .claim hpermitted.1 (by simp) (fun _ => hpermitted.2) rfl

theorem Manager.Valid.traded (hm : m.Valid) (hbooks : m.Books m')
    (howned : ∀ key ∈ m'.keys, key.serial < m.nextSerial ∧ key ∉ m.released) : m'.Valid := by
  obtain ⟨harea, hgranting, hclaimed, hreleased, hserial, hkeyed, hdistinct⟩ := hbooks
  constructor
  case placed => rw [harea]; exact hm.placed
  case bound => rw [hgranting, hserial]; exact hm.bound
  case backed => rw [harea, hgranting, hreleased]; exact hm.backed
  case keyed => exact hkeyed
  case distinct => exact hdistinct
  case owned => rw [hserial, hreleased]; exact howned
  case gone => rw [hserial, hreleased]; exact hm.gone
  case claimed => rw [hclaimed, harea]; exact hm.claimed

theorem Happened.valid (hstep : Happened held m m' held') (hm : m.Valid) : m'.Valid := by
  cases hstep with
  | altered haltered => exact haltered.valid hm
  | put owners hbooks hcaps hbacked hkeys =>
    refine hm.traded hbooks fun key hkey => ?_
    rcases hkeys key hkey with hold | ⟨owner, howner, hcap⟩
    · exact hm.owned key hold
    · have hbacked := hbacked owner howner
      rw [hcap] at hbacked
      exact ⟨hbacked.1, hbacked.2.1⟩
  | take owners hbooks htaken hkeys =>
    exact hm.traded hbooks fun key hkey => hm.owned key (hkeys key hkey)
  | prepare id hm' =>
    subst hm'
    constructor
    case bound =>
      intro id key hgranting
      obtain ⟨hid, hserial⟩ := hm.bound id key hgranting
      exact ⟨hid, Nat.lt_succ_of_lt hserial⟩
    case owned =>
      intro key hkey
      obtain ⟨hserial, hreleased⟩ := hm.owned key hkey
      exact ⟨Nat.lt_succ_of_lt hserial, hreleased⟩
    case gone => exact fun key hkey => Nat.lt_succ_of_lt (hm.gone key hkey)
    case placed => exact hm.placed
    case backed => exact hm.backed
    case keyed => exact hm.keyed
    case distinct => exact hm.distinct
    case claimed => exact hm.claimed
  | @release key hcap hbacked hsafe hm' =>
    subst hm'
    have hmem : ∀ {other}, other ∈ m.released ++ [key] ↔ other ∈ m.released ∨ other = key := by
      simp
    constructor
    case backed =>
      intro id hlive
      obtain ⟨other, hgranting, hkept⟩ := hm.backed id hlive
      refine ⟨other, hgranting, fun hgone => ?_⟩
      rcases hmem.mp hgone with hgone | rfl
      · exact hkept hgone
      · exact hsafe id hgranting hlive
    case owned =>
      intro other hother
      obtain ⟨hserial, hkept⟩ := hm.owned other hother
      refine ⟨hserial, fun hgone => ?_⟩
      rcases hmem.mp hgone with hgone | rfl
      · exact hkept hgone
      · exact hbacked.2.2 hother
    case gone =>
      intro other hgone
      rcases hmem.mp hgone with hgone | rfl
      · exact hm.gone other hgone
      · exact hbacked.1
    case placed => exact hm.placed
    case bound => exact hm.bound
    case keyed => exact hm.keyed
    case distinct => exact hm.distinct
    case claimed => exact hm.claimed
  | @claim id value hcap hactive _ hm' =>
    subst hm'
    refine ⟨hm.placed, hm.bound, hm.backed, hm.keyed, hm.distinct, hm.owned, hm.gone,
      fun other hother => ?_⟩
    by_cases hid : other = id
    · subst hid
      exact hactive (by simpa using hother)
    · have hold : update m.claimed id value other = true := hother
      rw [update_of_ne hid] at hold
      exact hm.claimed other hold

theorem Happened.gained (hstep : Happened held m m' held') (hcap : cap ∈ held') :
    cap ∈ held ∨ ¬cap.Backed m := by
  cases hstep with
  | altered | claim => exact .inl hcap
  | put | release => exact .inl hcap.1
  | take owners hbooks htaken hkeys =>
    rcases hcap with hcap | ⟨owner, howner, rfl⟩
    · exact .inl hcap
    · exact .inr fun hbacked => hbacked.2.2 (htaken owner howner).1
  | prepare id hm' =>
    rcases hcap with rfl | hcap
    · exact .inr fun hbacked => absurd hbacked.1 (lt_irrefl _)
    · exact .inl hcap

theorem Happened.kept (hstep : Happened held m m' held') (hcap : cap ∈ held → cap ∈ held')
    (hbacked : cap.Backed m) : cap.Backed m' := by
  cases cap with
  | engine id | report id => trivial
  | source key =>
    obtain ⟨hserial, hkept, hkey⟩ := hbacked
    cases hstep with
    | altered haltered =>
      obtain ⟨hreleased, hkeys, hserial', -⟩ := haltered.frame
      refine ⟨?_, ?_, ?_⟩
      · rwa [hserial']
      · rwa [hreleased]
      · rwa [hkeys]
    | put owners hbooks hcaps _ hkeys =>
      refine ⟨hbooks.nextSerial ▸ hserial, hbooks.released ▸ hkept, fun hmem => ?_⟩
      rcases hkeys key hmem with hold | hput
      · exact hkey hold
      · exact (hcap (hcaps hput)).2 hput
    | take owners hbooks htaken hkeys =>
      refine ⟨hbooks.nextSerial ▸ hserial, hbooks.released ▸ hkept, fun hmem => ?_⟩
      exact hkey (hkeys key hmem)
    | prepare id hm' =>
      subst hm'
      exact ⟨Nat.lt_succ_of_lt hserial, hkept, hkey⟩
    | release hown _ _ hm' =>
      subst hm'
      refine ⟨hserial, fun hmem => ?_, hkey⟩
      rcases List.mem_append.mp hmem with hold | hnew
      · exact hkept hold
      · rw [List.mem_singleton] at hnew
        subst hnew
        exact (hcap hown).2 rfl
    | claim _ _ _ hm' =>
      subst hm'
      exact ⟨hserial, hkept, hkey⟩

theorem Happened.new (hstep : Happened held m m' held') (hm : m.Valid) (hcap : cap ∈ held')
    (hnew : cap ∉ held) : cap.Backed m' := by
  cases hstep with
  | altered | claim => exact absurd hcap hnew
  | put | release => exact absurd hcap.1 hnew
  | take owners hbooks htaken hkeys =>
    rcases hcap with hcap | ⟨owner, howner, rfl⟩
    · exact absurd hcap hnew
    · obtain ⟨hbefore, hafter⟩ := htaken owner howner
      obtain ⟨hserial, hkept⟩ := hm.owned _ hbefore
      exact ⟨hbooks.nextSerial ▸ hserial, hbooks.released ▸ hkept, hafter⟩
  | prepare id hm' =>
    subst hm'
    rcases hcap with rfl | hcap
    · refine ⟨Nat.lt_succ_self _, fun hgone => ?_, fun hkey => ?_⟩
      · exact absurd (hm.gone _ hgone) (lt_irrefl _)
      · exact absurd (hm.owned _ hkey).1 (lt_irrefl _)
    · exact absurd hcap hnew

def grantDiscipline : Discipline ManagerAccess.perform ManagerCap where
  Valid := Valid
  Backed := ManagerCap.Backed
  Permitted := PermittedAccess
  after := ownedAfter
  valid hm hpermitted := (happened hm hpermitted).valid hm
  fresh hm hpermitted := (happened hm hpermitted).gained
  backed := by
    intro held access m cap hm hpermitted hheld hcap
    have hstep := happened hm hpermitted
    by_cases hold : cap ∈ held
    · exact hstep.kept (fun _ => hcap) (hheld cap hold)
    · exact hstep.new hm hcap hold
  frame hm hpermitted hcap := (happened hm hpermitted).kept fun hold => absurd hold hcap

end Steps

end OrbitKV
