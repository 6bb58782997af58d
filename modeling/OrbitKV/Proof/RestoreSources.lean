import OrbitKV.Proof.RestoreGrants

/-!
# Code of the Manager under the discipline

A function gives sources back only where they are its own and it has seen that nothing needs them.
-/

namespace OrbitKV

open Std RestoreCompletions Discipline.Fits Discipline.Keeps
open Discipline (stable_true)

abbrev ManagerPost (α : Type) : Type :=
  Set ManagerCap → α → Manager → Prop

abbrev Backs (held : Set ManagerCap) (m : Manager) : Prop :=
  grantDiscipline.Fits held m

/-! ### Facts that others leave alone -/

section Stability

variable {held held' : Set ManagerCap} {m m' : Manager} {key : SourceKey} {id : Nat}
  {P : Manager → Prop}

section

variable (hstep : Happened held m m' held')

include hstep

theorem Happened.altered_or : Altered held m m' ∨ m'.area = m.area ∧ m'.granting = m.granting := by
  cases hstep with
  | altered haltered => exact .inl haltered
  | put owners hbooks | take owners hbooks => exact .inr ⟨hbooks.area, hbooks.granting⟩
  | prepare id hm' => exact .inr (hm' ▸ ⟨rfl, rfl⟩)
  | release _ _ _ hm' => exact .inr (hm' ▸ ⟨rfl, rfl⟩)
  | claim _ _ _ hm' => exact .inr (hm' ▸ ⟨rfl, rfl⟩)

theorem Happened.safe (hkey : .source key ∉ held) (hsafe : m.Safe key) : m'.Safe key := by
  intro id hgranting hlive
  rcases hstep.altered_or with haltered | ⟨harea, hsame⟩
  · rcases haltered.live hlive with ⟨hold, hsame⟩ | ⟨other, hcap, -, -, hnew⟩
    · exact hsafe id (hsame ▸ hgranting) hold
    · obtain rfl := Option.some.inj (hnew.symm.trans hgranting)
      exact hkey hcap
  · exact hsafe id (hsame ▸ hgranting) (harea ▸ hlive)

theorem Happened.over (hover : m.area.Over id) : m'.area.Over id := by
  rcases hstep.altered_or with haltered | ⟨harea, -⟩
  · exact haltered.over hover
  · exact harea ▸ hover

theorem Happened.active {state : GrantState}
    (hactive : state.isActive = true) (htag : m.area.tags (slotOf id) = tagOf id state) :
    m'.area.tags (slotOf id) = tagOf id state ∨ .engine id ∈ held ∧ m.claimed id = false := by
  rcases hstep.altered_or with haltered | ⟨harea, -⟩
  · exact haltered.active hactive htag
  · exact .inl (harea ▸ htag)

theorem Happened.claimed_or (id : Nat) :
    m'.claimed id = m.claimed id ∨
      .engine id ∈ held ∧ (m'.claimed id = false → .report id ∈ held) := by
  cases hstep with
  | altered haltered => exact .inl (congrFun haltered.frame.2.2.2 id)
  | put owners hbooks | take owners hbooks => exact .inl (congrFun hbooks.claimed id)
  | prepare id hm' => exact .inl (hm' ▸ rfl)
  | release _ _ _ hm' => exact .inl (hm' ▸ rfl)
  | @claim other value hcap _ hreport hm' =>
    subst hm'
    by_cases hid : id = other
    · subst hid
      exact .inr ⟨hcap, fun hended => hreport (by simpa using hended)⟩
    · exact .inl (Function.update_of_ne hid ..)

theorem Happened.claimed (hid : .engine id ∉ held) : m'.claimed id = m.claimed id :=
  (hstep.claimed_or id).resolve_right fun hcap => hid hcap.1

end

theorem stable_of_happened
    (hP : ∀ others others' m m', Disjoint held others → Happened others m m' others' → P m → P m') :
    grantDiscipline.Stable held P := by
  rintro m _ ⟨others, access, hdisjoint, hm, hpermitted, rfl⟩ hs
  exact hP others _ m _ hdisjoint (happened hm hpermitted) hs

theorem stable_safe (hkey : .source key ∈ held) : grantDiscipline.Stable held fun m => m.Safe key :=
  stable_of_happened fun _ _ _ _ hdisjoint hstep =>
    hstep.safe (Set.disjoint_left.mp hdisjoint hkey)

theorem stable_active (hid : .engine id ∈ held) :
    grantDiscipline.Stable held fun m => m.area.Active id := by
  refine stable_of_happened fun others _ m m' hdisjoint hstep ⟨state, hactive, htag⟩ => ?_
  rcases hstep.active hactive htag with hkept | ⟨hother, -⟩
  · exact ⟨state, hactive, hkept⟩
  · exact absurd hother (Set.disjoint_left.mp hdisjoint hid)

theorem stable_claimed (hid : .engine id ∈ held) (value : Bool) :
    grantDiscipline.Stable held fun m => m.claimed id = value :=
  stable_of_happened fun _ _ _ _ hdisjoint hstep hvalue =>
    (hstep.claimed (Set.disjoint_left.mp hdisjoint hid)).trans hvalue

def Lasting (P : Manager → Prop) : Prop :=
  ∀ held held' m m', Happened held m m' held' → P m → P m'

theorem Lasting.stable (hP : Lasting P) : grantDiscipline.Stable held P :=
  stable_of_happened fun others others' m m' _ => hP others others' m m'

theorem lasting_true : Lasting fun _ => True := fun _ _ _ _ _ _ => trivial

theorem Lasting.over (hP : Lasting P) : Lasting fun m => P m ∧ m.area.Over id :=
  fun _ _ _ _ hstep hs => ⟨hP _ _ _ _ hstep hs.1, hstep.over hs.2⟩

end Stability

/-! ### Methods -/

def RestoreCall.isPassive : RestoreCall → Bool
  | .publishLocal .. | .claimLocal .. | .drained .. => false
  | _ => true

theorem RestoreCall.passive_moves {call : RestoreCall} {source target : GrantState}
    (hpassive : call.isPassive = true) (hmoves : call.moves source target = true) :
    target.isGranted = false ∧ source.isActive = false := by
  unfold RestoreCall.moves at hmoves
  split at hmoves <;> first | exact ⟨rfl, rfl⟩ | cases hpassive | cases hmoves

theorem RestoreCall.publish_moves {id : Nat} {plan : List UInt8} {more : Bool}
    {source target : GrantState}
    (hmoves : (RestoreCall.publishLocal id plan more).moves source target = true) :
    target.isGranted = true := by
  unfold RestoreCall.moves at hmoves
  split at hmoves
  all_goals first | rfl | contradiction

def Access.Passive (access : Access) : Prop :=
  ∃ call : RestoreCall, call.isPassive = true ∧ call.Does access

theorem Access.Calm.other {access : Access} (hcalm : access.Calm) :
    ∀ slot old new note, access ≠ .exchange slot old new note := by
  rintro slot old new note rfl
  exact hcalm

theorem Access.OfPlan.other {access : Access} (hplan : access.OfPlan) :
    ∀ slot old new note, access ≠ .exchange slot old new note := by
  rintro slot old new note rfl
  exact hplan

section Methods

variable {α β : Type} {held : Set ManagerCap} {m : Manager} {key : SourceKey} {id : Nat}
  {access : Access} {publishing : Option SourceKey} {P : Manager → Prop}
  {Q : ManagerPost (Except CompletionError α)}
  {I : Set ManagerCap → Manager → Prop}

theorem RestoreCall.Does.admitted {call : RestoreCall} (hdoes : call.Does access)
    (hreserve : call = .reserve → publishing = none)
    (hmove : ∀ id source target note, call.id? = some id → call.moves source target = true →
      Admitted held m publishing
        (.exchange (slotOf id) (tagOf id source) (tagOf id target) note)) :
    Admitted held m publishing access := by
  cases hdoes with
  | calm hcalm => exact .other hcalm.other
  | move hpos hid hmoves hnote => exact hmove _ _ _ _ hid hmoves
  | reserve hcall hfree hless => exact .reserve (hreserve hcall) hfree hless
  | write =>
    refine .other ?_
    rintro slot old new note heq
    cases heq
  | plan hcall hplan => exact .other hplan.other

theorem Access.Passive.admitted (hpassive : access.Passive) : Admitted held m none access := by
  obtain ⟨call, hcall, hdoes⟩ := hpassive
  refine hdoes.admitted (fun _ => rfl) fun id source target note _ hmoves => ?_
  obtain ⟨hgranted, hactive⟩ := RestoreCall.passive_moves hcall hmoves
  refine .move rfl (RestoreCall.moves_diagram hmoves) hgranted fun hsource => ?_
  rw [hactive] at hsource
  cases hsource

theorem RestoreCall.passive_body {call : RestoreCall} (hcall : call.isPassive = true) :
    call.body.All Access.Passive :=
  (does_body call).mono fun _ hdoes => ⟨call, hcall, hdoes⟩

theorem over_bind (op : Op α) (rest : α → Op β) : Op.over publishing (op >>= rest) =
    Op.over publishing op >>= fun value => Op.over publishing (rest value) := by
  induction op with
  | done value => rfl
  | fail error => rfl
  | again => rfl
  | act access next ih => exact congrArg (Process.act _) (funext ih)

def OnArea (permitted : Access → Prop) (publishing : Option SourceKey) : ManagerAccess → Prop
  | .area access other => permitted access ∧ other = publishing
  | _ => False

theorem all_over {permitted : Access → Prop} {op : Op α} (hall : op.All permitted) :
    (Op.over publishing op).All (OnArea permitted publishing) := by
  induction op with
  | done value => trivial
  | fail error => trivial
  | again => trivial
  | act access next ih => exact ⟨⟨hall.1, rfl⟩, fun answer => ih answer (hall.2 answer)⟩

abbrev KeepsOver (Q : ManagerPost (Except CompletionError α))
    (I : Set ManagerCap → Manager → Prop) (publishing : Option SourceKey) (op : Op α) :
    Set ManagerCap → Manager → Prop :=
  grantDiscipline.Keeps Q I (Op.over publishing op)

theorem keeps_over {permitted : Access → Prop} {op : Op α} (hall : op.All permitted)
    (hP : grantDiscipline.Stable held P)
    (hadmitted : ∀ access t, permitted access → Backs held t → P t →
      Admitted held t publishing access)
    (hkept : ∀ access t, permitted access → Backs held t → P t →
      P ((ManagerAccess.area access publishing).perform t).2) (hm : P m)
    (hQ : ∀ outcome t, Backs held t → P t → Q held outcome t)
    (hI : ∀ t, Backs held t → P t → I held t) : KeepsOver Q I publishing op held m := by
  have halong : grantDiscipline.Keeps
      (fun own (_ : Except CompletionError α) t => own = held ∧ Backs held t ∧ P t)
      (fun own t => own = held ∧ Backs held t ∧ P t)
      (Op.over publishing op) held m := by
    have hover : (Op.over publishing op).All (OnArea permitted publishing) := all_over hall
    refine along hover ?_ ?_ hP ?_ hm
    · rintro (⟨access, other⟩ | _) t hon hfits ht
      · obtain ⟨haccess, rfl⟩ := hon
        exact hadmitted access t haccess hfits ht
      all_goals cases hon
    · rintro (⟨access, other⟩ | _) answer hon
      · rfl
      all_goals cases hon
    · rintro (⟨access, other⟩ | _) t hon hfits ht
      · obtain ⟨haccess, rfl⟩ := hon
        exact hkept access t haccess hfits ht
      all_goals cases hon
  refine halong.mono ?_ ?_
  · rintro own outcome t ⟨rfl, hfits, ht⟩
    exact hQ outcome t hfits ht
  · rintro own t ⟨rfl, hfits, ht⟩
    exact hI t hfits ht

theorem keeps_passive {op : Op α} (hall : op.All Access.Passive)
    (hP : grantDiscipline.Stable held P) (hm : P m)
    (hQ : ∀ outcome t, Backs held t → P t → Q held outcome t)
    (hI : ∀ t, Backs held t → P t → I held t) : KeepsOver Q I none op held m := by
  refine keeps_over hall hP (fun _ _ hpassive _ _ => hpassive.admitted) ?_ hm hQ hI
  intro access t hpassive hfits ht
  refine hP t _ ⟨∅, .area access none, Set.disjoint_empty held, hfits.1, ?_, rfl⟩ ht
  exact hpassive.admitted

theorem keeps_over_other {next : access.Answer → Op α}
    (hother : ∀ slot old new note, access ≠ .exchange slot old new note)
    (hP : grantDiscipline.Stable held P) (hm : P m)
    (hnext : ∀ t answer, Backs held t → P t → KeepsOver Q I publishing (next answer) held t) :
    KeepsOver Q I publishing (.act access next) held m := by
  have hpermitted : ∀ own t, grantDiscipline.Permitted own (.area access publishing) t :=
    fun own t => .other hother
  refine act hP hm fun t hfits ht => ⟨hpermitted held t, ?_⟩
  refine hnext _ _ (act hfits (hpermitted held t)) ?_
  exact hP t _ ⟨∅, _, Set.disjoint_empty held, hfits.1, hpermitted ∅ t, rfl⟩ ht

theorem keeps_over_state {rest : GrantState → Op α} (hP : grantDiscipline.Stable held P) (hm : P m)
    (hrest : ∀ t state, Backs held t → P t → t.area.InState id state →
      KeepsOver Q I publishing (rest state) held t)
    (herror : ∀ error t, Backs held t → P t → Q held (.error error) t) :
    KeepsOver Q I publishing (state id >>= rest) held m := by
  have hfail : ∀ error t, P t → grantDiscipline.Keeps Q I (.fail error) held t :=
    fun error t ht u hu => herror error u hu.fits (hu.stable (hP _ _) ht)
  rw [state_eq]
  unfold offset
  split
  case isTrue => exact hfail _ m hm
  case isFalse hvalid =>
    refine act hP hm fun t hfits ht => ⟨.other (Access.Calm.other trivial), ?_⟩
    change KeepsOver Q I publishing (stateOf id (t.area.tags (slotOf id)) >>= rest) held t
    unfold stateOf
    by_cases hid : t.area.tags (slotOf id) / 16 = id
    · rw [if_neg (not_not.mpr hid)]
      cases hdecode : GrantState.decode (t.area.tags (slotOf id)) with
      | none => exact hfail _ t ht
      | some state =>
        refine hrest t state hfits ht ⟨by omega, by omega, ?_⟩
        have hcode := decode_eq_some hdecode
        unfold tagOf
        omega
    · rw [if_pos hid]
      exact hfail _ t ht

theorem keeps_over_exchange {rest : Bool → Op α} {source target : GrantState}
    {note : Option RestoreResult} (hP : grantDiscipline.Stable held P) (hm : P m)
    (hadmitted : ∀ t, Backs held t → P t → Admitted held t publishing
      (.exchange (slotOf id) (tagOf id source) (tagOf id target) note))
    (hsuccess : ∀ t, Backs held t → P t →
      t.area.tags (slotOf id) = tagOf id source → ∀ t', Backs held t' →
      Happened held t t' held → t'.area.tags (slotOf id) = tagOf id target →
      t'.claimed = t.claimed →
      KeepsOver Q I publishing (rest true) held t')
    (hfailure : ∀ t, Backs held t → P t → KeepsOver Q I publishing (rest false) held t)
    (herror : ∀ error t, Backs held t → P t → Q held (.error error) t) :
    KeepsOver Q I publishing (tryTransition id source target note >>= rest) held m := by
  unfold tryTransition offset
  split
  case isTrue => exact fun t ht => herror _ t ht.fits (ht.stable (hP _ _) hm)
  case isFalse hvalid =>
    refine act hP hm fun t hfits ht => ?_
    have hpermitted : grantDiscipline.Permitted held (.area (.exchange (slotOf id)
        (tagOf id source) (tagOf id target) note) publishing) t := hadmitted t hfits ht
    refine ⟨hpermitted, ?_⟩
    have hafter : Backs held _ := act hfits hpermitted
    have hstep : Happened held t ((ManagerAccess.area (.exchange (slotOf id) (tagOf id source)
        (tagOf id target) note) publishing).perform t).2 held := happened hfits.1 hpermitted
    rcases t.area.exchange_cases (slotOf id) (tagOf id source) (tagOf id target) note with
      ⟨hold, hresult⟩ | ⟨hne, -⟩
    · simp only [ManagerAccess.perform, Access.perform, hresult] at hafter hstep ⊢
      exact hsuccess t hfits ht hold _ hafter hstep (Function.update_self ..) rfl
    · simp only [perform_failed hne]
      exact hfailure t hfits ht

/-! ### What the Manager reads -/

theorem Manager.Safe.of_state {state : GrantState} (hm : m.Valid) (hid : key.operation = id)
    (htag : m.area.tags (slotOf id) = tagOf id state) (hlive : state.isLive = false) :
    m.Safe key := by
  intro other hgranting
  obtain rfl : id = other := hid.symm.trans (hm.bound other key hgranting).1
  exact Area.not_live_of_state htag hlive

theorem keeps_readState (hkey : .source key ∈ held) (hid : key.operation = id)
    {Q : ManagerPost (Except CompletionError GrantState)}
    (hQ : ∀ outcome t, Backs held t →
      (∀ state, outcome = .ok state → state.isLive = false → t.Safe key) → Q held outcome t) :
    KeepsOver Q I none (state id) held m := by
  rw [← Process.bind_done (state id)]
  refine keeps_over_state stable_true trivial (fun t found hfits _ hstate => ?_) ?_
  · intro u hu
    refine hQ _ u hu.fits fun state hok hlive => ?_
    obtain rfl := Except.ok.inj hok
    exact hu.stable (stable_safe hkey _ _) (.of_state hfits.1 hid hstate.tag hlive)
  · exact fun error t hfits _ => hQ _ t hfits fun state hok => by cases hok

theorem passive_dirty (id : Nat) (fault : Option String) : (dirty id fault).All Access.Passive :=
  all_dirty (fun _ hcalm => ⟨.reserve, rfl, .calm hcalm⟩) id fault

theorem keeps_revokeFrom {source : GrantState} (hmoves : source.moves .revoked = true)
    (hactive : source.isActive = false) (hkey : .source key ∈ held) (hid : key.operation = id)
    {Q : ManagerPost (Except CompletionError Bool)} (fault : Option String)
    (hQ : ∀ outcome t, Backs held t → (outcome = .ok true → t.Safe key) → Q held outcome t)
    (hI : ∀ t, Backs held t → I held t) :
    KeepsOver Q I none (revokeFrom id source fault) held m := by
  unfold revokeFrom
  refine keeps_over_exchange stable_true trivial (fun t _ _ => ?_)
    (fun t _ _ _ t' hfits _ htag _ => ?_) (fun t _ _ u hu => hI u hu.fits)
    fun error t hfits _ => hQ _ t hfits fun hok => by cases hok
  · refine .move rfl hmoves rfl fun hsource => ?_
    rw [hactive] at hsource
    cases hsource
  · have hsafe : t'.Safe key := .of_state hfits.1 hid htag rfl
    refine keeps_passive ?_ (stable_safe hkey) hsafe (fun outcome u hu hsafe => ?_)
      fun u hu _ => hI u hu
    · exact (passive_dirty id fault).bind fun _ => trivial
    · exact hQ outcome u hu fun _ => hsafe

theorem keeps_revoke (hkey : .source key ∈ held) (hid : key.operation = id)
    {Q : ManagerPost (Except CompletionError Bool)} (fault : Option String)
    (hQ : ∀ outcome t, Backs held t → (outcome = .ok true → t.Safe key) → Q held outcome t)
    (hI : ∀ t, Backs held t → I held t) : KeepsOver Q I none (revoke id fault) held m := by
  unfold revoke
  refine keeps_over_state stable_true trivial (fun t found _ _ _ => ?_) ?_
  · cases found with
    | granted => exact keeps_revokeFrom rfl rfl hkey hid fault hQ hI
    | grantedMore => exact keeps_revokeFrom rfl rfl hkey hid fault hQ hI
    | partDrained => exact keeps_revokeFrom rfl rfl hkey hid fault hQ hI
    | _ => exact fun u hu => hQ _ u hu.fits fun hok => by cases hok
  · exact fun error t hfits _ => hQ _ t hfits fun hok => by cases hok

theorem keeps_continueLocal (hP : Lasting P) (hm : P m) (hkey : .source key ∈ held)
    (hid : key.operation = id) {Q : ManagerPost (Except CompletionError Unit)}
    (hQ : ∀ outcome t, Backs held t → P t → (outcome = .ok () → t.Safe key) →
      Q held outcome t) : KeepsOver Q I none (continueLocal id) held m := by
  have hfail : ∀ error t, Backs held t → P t → Q held (.error error) t :=
    fun error t hfits ht => hQ _ t hfits ht fun hok => by cases hok
  refine keeps_over_exchange hP.stable hm (fun t _ _ => ?_)
    (fun t _ ht _ t' hfits hstep htag _ u hu => ?_) (fun t _ ht u hu => ?_) hfail
  · exact .move rfl rfl rfl fun hsource => by cases hsource
  · have hsafe : t'.Safe key := .of_state hfits.1 hid htag rfl
    refine hQ _ u hu.fits ?_ fun _ => hu.stable (stable_safe hkey _ _) hsafe
    exact hu.stable (hP.stable _ _) (hP _ _ _ _ hstep ht)
  · exact hfail _ u hu.fits (hu.stable (hP.stable _ _) ht)

def Manager.Confirms (m : Manager) (updates : List (Nat × GrantState)) : Prop :=
  ∀ update ∈ updates, update.2.isOver = true → m.area.Over update.1

theorem lasting_confirms {updates : List (Nat × GrantState)} :
    Lasting fun m => m.Confirms updates :=
  fun _ _ _ _ hstep hs update hmem hover => hstep.over (hs update hmem hover)

theorem stable_confirms {updates : List (Nat × GrantState)} :
    grantDiscipline.Stable held fun m => m.Confirms updates :=
  lasting_confirms.stable

def gatherFrom (slots : List Slot) (tag : Nat) : Op (List (Nat × GrantState)) :=
  if tag = 0 then
    gatherUpdates slots
  else
    match GrantState.decode tag with
    | none => .fail .invalidPayload
    | some state => gatherUpdates slots >>= fun updates => .done ((tag / 16, state) :: updates)

theorem over_of_word (hm : m.Valid) {slot : Slot} {state : GrantState}
    (hword : m.area.tags slot ≠ 0) (hdecode : GrantState.decode (m.area.tags slot) = some state)
    (hover : state.isOver = true) : m.area.Over (m.area.tags slot / 16) := by
  rcases hm.placed slot with hzero | ⟨id, found, htag, rfl⟩
  · exact absurd hzero hword
  · rw [htag, decode_tagOf] at hdecode
    obtain rfl := Option.some.inj hdecode
    rw [htag, tagOf_div]
    exact .inr ⟨found, hover, htag⟩

def gatherRest (indices : List Nat) (slots : List Slot) : Op (List (Nat × GrantState)) :=
  gatherUpdates slots >>= fun updates => gatherWords indices >>= fun more => .done (updates ++ more)

theorem gatherWords_cons (index : Nat) (indices : List Nat) :
    gatherWords (index :: indices) = Op.takeDirty index >>= gatherRest indices :=
  rfl

section Gathering

variable {slots : List Slot} {indices : List Nat} {rest : List (Nat × GrantState) → Op α}
  (hP : grantDiscipline.Stable held P) (hm : P m) (hfits : Backs held m)
  (hrest : ∀ updates t, Backs held t → P t → t.Confirms updates →
    KeepsOver Q I none (rest updates) held t)
  (herror : ∀ error t, Backs held t → Q held (.error error) t)

include hP hm hfits hrest herror

theorem keeps_gatherUpdates : KeepsOver Q I none (gatherUpdates slots >>= rest) held m := by
  induction slots generalizing P rest m with
  | nil => exact hrest [] m hfits hm (by simp [Manager.Confirms])
  | cons slot slots ih =>
    refine act hP hm fun t hfits ht => ⟨.other (Access.Calm.other trivial), ?_⟩
    change KeepsOver Q I none (gatherFrom slots (t.area.tags slot) >>= rest) held t
    unfold gatherFrom
    split
    case isTrue => exact ih hP ht hfits hrest
    case isFalse hword =>
      cases hdecode : GrantState.decode (t.area.tags slot) with
      | none => exact fun u hu => herror _ u hu.fits
      | some state =>
        -- what the word has shown stays true while the others are read
        have hshown : t.Confirms [(t.area.tags slot / 16, state)] := by
          simpa [Manager.Confirms] using over_of_word hfits.1 hword hdecode
        generalize t.area.tags slot / 16 = id at hshown ⊢
        dsimp only
        rw [Process.bind_assoc]
        refine ih (P := fun t => P t ∧ t.Confirms [(id, state)]) ?_ ⟨ht, hshown⟩ hfits
          fun updates u hfits hu hconfirms => hrest _ u hfits hu.1 ?_
        · exact fun s t hstep hs => ⟨hP s t hstep hs.1, stable_confirms s t hstep hs.2⟩
        · exact List.forall_mem_cons.mpr ⟨hu.2 _ List.mem_cons_self, hconfirms⟩

theorem keeps_gatherWords : KeepsOver Q I none (gatherWords indices >>= rest) held m := by
  induction indices generalizing P rest m with
  | nil => exact hrest [] m hfits hm (by simp [Manager.Confirms])
  | cons index indices ih =>
    rw [gatherWords_cons]
    refine keeps_over_other (Access.Calm.other trivial) hP hm fun t slots hfits ht => ?_
    change KeepsOver Q I none (gatherRest indices slots >>= rest) held t
    unfold gatherRest
    rw [Process.bind_assoc]
    refine keeps_gatherUpdates hP ht hfits (fun updates u hfits hu hconfirms => ?_) herror
    rw [Process.bind_assoc]
    refine ih (P := fun t => P t ∧ t.Confirms updates) ?_ ⟨hu, hconfirms⟩ hfits
      fun more v hfits hv hmore => hrest _ v hfits hv.1 ?_
    · exact fun s t hstep hs => ⟨hP s t hstep hs.1, stable_confirms s t hstep hs.2⟩
    · exact List.forall_mem_append.mpr ⟨hv.2, hmore⟩

end Gathering

theorem keeps_managerUpdates {Q : ManagerPost (Except CompletionError (List (Nat × GrantState)))}
    (hfits : Backs held m) (fault : Option String)
    (hQ : ∀ updates t, Backs held t → t.Confirms updates → Q held (.ok updates) t)
    (herror : ∀ error t, Backs held t → Q held (.error error) t) :
    KeepsOver Q I none (managerUpdates fault) held m := by
  cases fault with
  | some message => exact fun t ht => herror _ t ht.fits
  | none =>
    change KeepsOver Q I none (gatherWords (List.range dirtyWords)) held m
    rw [← Process.bind_done (gatherWords _)]
    refine keeps_gatherWords stable_true trivial hfits
      (fun updates t hfits _ hconfirms u hu => ?_) herror
    exact hQ updates u hu.fits (hu.stable (stable_confirms _ _) hconfirms)

end Methods

/-! ### Functions of the Manager -/

def Goes {α : Type} (Q : ManagerPost α) (op : ManagerOp α)
    (held : Set ManagerCap) (m : Manager) : Prop :=
  grantDiscipline.Keeps (fun held outcome t => ∀ value, outcome = .ok value → Q held value t)
    (fun _ _ => False) op held m

section Functions

variable {α β : Type} {held : Set ManagerCap} {m : Manager} {key : SourceKey} {id : Nat}
  {P : Manager → Prop} {Q : ManagerPost α}
  {body : Option String → Op α} {source : RawRestoreGrant}

theorem Goes.bind {Q : ManagerPost β} {op : ManagerOp α}
    {rest : α → ManagerOp β} (hfits : Backs held m)
    (hfirst : Goes (fun held value t => Goes Q (rest value) held t) op held m) :
    Goes Q (op >>= rest) held m := by
  refine Discipline.Keeps.bind hfits (Discipline.Keeps.mono hfirst ?_ fun _ _ h => h)
  intro held outcome t hthen
  cases outcome with
  | ok value => exact hthen value rfl
  | error error =>
    intro value hvalue
    cases hvalue

theorem goes_done {value : α} (hP : grantDiscipline.Stable held P) (hm : P m)
    (hQ : ∀ t, Backs held t → P t → Q held value t) : Goes Q (.done value) held m := by
  intro t ht other hother
  obtain rfl := Except.ok.inj hother
  exact hQ t ht.fits (ht.stable (hP _ _) hm)

theorem goes_return {value : α} (hQ : ∀ t, Backs held t → Q held value t) :
    Goes Q (.done value) held m :=
  goes_done stable_true trivial fun t ht _ => hQ t ht

theorem goes_act {access : ManagerAccess} {next : access.Answer → ManagerOp α}
    (hP : grantDiscipline.Stable held P) (hm : P m)
    (hstep : ∀ t, Backs held t → P t → PermittedAccess held access t ∧
      Goes Q (next (access.perform t).1) (ownedAfter held access (access.perform t).1)
        (access.perform t).2) : Goes Q (.act access next) held m :=
  act hP hm hstep

theorem goes_method {publishing : Option SourceKey}
    {Q : ManagerPost (Except CompletionError α)}
    (hP : grantDiscipline.Stable held P) (hm : P m)
    (hbody : ∀ fault t, Backs held t → P t → grantDiscipline.Keeps Q
      (fun own t => own = held ∧ P t) (Op.over publishing (body fault)) held t) :
    Goes Q (ManagerOp.method publishing body) held m := by
  refine goes_act hP hm fun t hfits ht => ⟨trivial, ?_⟩
  refine attempt (I := fun own t => own = held ∧ P t) hfits ⟨rfl, ht⟩ ?_ ?_ _
  · rintro own u hu ⟨rfl, hPu⟩
    refine (hbody t.fault u hu hPu).mono ?_ fun _ _ h => h
    intro own outcome v hQ value hvalue
    obtain rfl := Except.ok.inj hvalue
    exact hQ
  · intro own u value hvalue
    cases hvalue

theorem goes_passive {Q : ManagerPost (Except CompletionError α)}
    (hbody : ∀ fault, (body fault).All Access.Passive) (hP : grantDiscipline.Stable held P)
    (hm : P m) (hQ : ∀ outcome t, Backs held t → P t → Q held outcome t) :
    Goes Q (ManagerOp.method none body) held m :=
  goes_method hP hm fun fault _ _ ht =>
    keeps_passive (hbody fault) hP ht hQ fun _ _ hu => ⟨rfl, hu⟩

theorem goes_free {access : ManagerAccess} {next : access.Answer → ManagerOp α}
    (hpermitted : ∀ held t, PermittedAccess held access t)
    (hafter : ∀ answer, ownedAfter held access answer = held)
    (hP : grantDiscipline.Stable held P) (hm : P m)
    (hnext : ∀ t answer, Backs held t → P t → Goes Q (next answer) held t) :
    Goes Q (.act access next) held m := by
  refine goes_act hP hm fun t hfits ht => ⟨hpermitted held t, ?_⟩
  have hstep : grantDiscipline.Permitted held access t := hpermitted held t
  have hfits' := act hfits hstep
  have hkept := hP t _ ⟨∅, access, Set.disjoint_empty held, hfits.1, hpermitted ∅ t, rfl⟩ ht
  change Backs (ownedAfter held access _) _ at hfits'
  rw [hafter] at hfits' ⊢
  exact hnext _ _ hfits' hkept

theorem goes_release {rest : Unit → ManagerOp α} (hP : Lasting P)
    (hm : P m) (hcap : .source source.key ∈ held) (hsafe : m.Safe source.key)
    (hrest : ∀ t, Backs (held \ {.source source.key}) t → P t →
      Goes Q (rest ()) (held \ {.source source.key}) t) :
    Goes Q (ManagerOp.release source >>= rest) held m := by
  have hstable : grantDiscipline.Stable held fun m => P m ∧ m.Safe source.key :=
    fun s t hstep hs => ⟨hP.stable s t hstep hs.1, stable_safe hcap s t hstep hs.2⟩
  refine goes_act hstable ⟨hm, hsafe⟩ fun t hfits ht => ?_
  have hpermitted : grantDiscipline.Permitted held (.release source) t :=
    ⟨hcap, hfits.2 _ hcap, ht.2⟩
  refine ⟨hpermitted, hrest _ (act hfits hpermitted) ?_⟩
  exact hP _ _ _ _ (happened hfits.1 hpermitted) ht.1

theorem passive_method (call : RestoreCall) {op : Op α} {f : α → RestoreReply}
    (hcall : call.isPassive = true) (hbody : call.body = f <$> op) : op.All Access.Passive := by
  have hall := RestoreCall.passive_body hcall
  rw [hbody] at hall
  exact hall.of_bind

theorem goes_call {Q : ManagerPost β} (call : Option String → RestoreCall)
    {f : α → RestoreReply} {rest : Except CompletionError α → ManagerOp β}
    (hcall : ∀ fault, (call fault).isPassive = true ∧ (call fault).body = f <$> body fault)
    (hfits : Backs held m) (hP : grantDiscipline.Stable held P) (hm : P m)
    (hrest : ∀ outcome t, Backs held t → P t → Goes Q (rest outcome) held t) :
    Goes Q (ManagerOp.method none body >>= rest) held m :=
  Goes.bind hfits (goes_passive (fun fault => passive_method _ (hcall fault).1 (hcall fault).2)
    hP hm hrest)

theorem goes_reject {message : String} {rest : Unit → ManagerOp α} (hP : Lasting P) (hm : P m)
    (hfits : Backs held m) (hrest : ∀ t, Backs held t → P t → Goes Q (rest ()) held t) :
    Goes Q (ManagerOp.reject id message >>= rest) held m := by
  refine Goes.bind hfits
    (goes_call (.reject id message) (fun _ => ⟨rfl, rfl⟩) hfits hP.stable hm fun _ t _ ht => ?_)
  exact goes_done hP.stable ht hrest

theorem goes_rejected {message : String} {Q : ManagerPost Unit}
    (hfits : Backs held m) (hQ : ∀ t, Backs held t → Q held () t) :
    Goes Q (ManagerOp.reject id message) held m := by
  rw [← Process.bind_done (ManagerOp.reject id message)]
  exact goes_reject lasting_true trivial hfits fun t _ _ => goes_return hQ

theorem goes_revoke {Q : ManagerPost Bool} (hkey : .source key ∈ held)
    (hid : key.operation = id) (hfits : Backs held m)
    (hQ : ∀ revoked t, Backs held t → (revoked = true → t.Safe key) →
      Q held revoked t) : Goes Q (ManagerOp.revoke id) held m := by
  have hend : ∀ revoked u, (revoked = true → u.Safe key) → Goes Q (.done revoked) held u := by
    intro revoked u hsafe
    refine goes_done (P := fun u => revoked = true → u.Safe key) ?_ hsafe (hQ revoked)
    exact fun s t hstep hs htrue => stable_safe hkey s t hstep (hs htrue)
  refine Goes.bind hfits (goes_method stable_true trivial fun fault t hfits _ => ?_)
  refine keeps_revoke hkey hid fault (fun outcome u hu hsafe => ?_) fun u _ => ⟨rfl, trivial⟩
  cases outcome with
  | ok revoked => exact hend revoked u fun htrue => hsafe (htrue ▸ rfl)
  | error error => exact hend false u fun hfalse => by cases hfalse

section Safety

variable {owner : SourceGrant} {Q : ManagerPost Bool}
  (hcap : owner.cap ∈ held)
  (hQ : ∀ safe t, Backs held t → (safe = true → t.Safe owner.source.key) → Q held safe t)

include hcap hQ

theorem goes_answer {safe : Bool} (hsafe : safe = true → m.Safe owner.source.key) :
    Goes Q (.done safe) held m := by
  refine goes_done (P := fun u => safe = true → u.Safe owner.source.key) ?_ hsafe (hQ safe)
  exact fun s t hstep hs htrue => stable_safe hcap s t hstep (hs htrue)

theorem goes_answer_false : Goes Q (.done false) held m :=
  goes_answer hcap hQ fun hfalse => by cases hfalse

theorem goes_isSafeRevoked (hfits : Backs held m) : Goes Q owner.isSafeRevoked held m := by
  refine Goes.bind hfits (goes_revoke hcap rfl hfits fun revoked t ht hrevoked => ?_)
  cases revoked with
  | true => exact goes_answer hcap hQ fun _ => hrevoked rfl
  | false =>
    refine Goes.bind ht (goes_method stable_true trivial fun _ u _ _ => ?_)
    refine keeps_readState hcap rfl fun outcome v hv hsafe => ?_
    cases outcome with
    | error error => exact goes_answer_false hcap hQ
    | ok found =>
      cases found with
      | partDrained | drained | reaped | acknowledged =>
        exact goes_answer hcap hQ fun _ => hsafe _ rfl rfl
      | _ => exact goes_answer_false hcap hQ

theorem goes_isSafe (hfits : Backs held m) : Goes Q owner.isSafe held m := by
  refine Goes.bind hfits (goes_method stable_true trivial fun _ t _ _ => ?_)
  refine keeps_readState hcap rfl fun outcome u hu hsafe => ?_
  cases outcome with
  | error error => exact goes_answer_false hcap hQ
  | ok found =>
    cases found with
    | granted | grantedMore => exact goes_isSafeRevoked hcap hQ hu
    | active | activeMore => exact goes_answer_false hcap hQ
    | _ => exact goes_answer hcap hQ fun _ => hsafe _ rfl rfl

end Safety

theorem goes_drop {owner : SourceGrant} {rest : Unit → ManagerOp α} (hcap : owner.cap ∈ held)
    (hfits : Backs held m)
    (hrest : ∀ t, Backs (held \ {owner.cap}) t → Goes Q (rest ()) (held \ {owner.cap}) t) :
    Goes Q (owner.drop >>= rest) held m := by
  refine Goes.bind hfits (Goes.bind hfits (goes_isSafe hcap (fun safe t hfits hsafe => ?_) hfits))
  cases safe with
  | true =>
    refine goes_release lasting_true trivial hcap (hsafe rfl) fun u hu _ => ?_
    refine goes_free (fun _ _ => trivial) (fun _ => rfl) stable_true trivial fun v _ hv _ => ?_
    exact goes_return hrest
  | false =>
    refine goes_act stable_true trivial fun u hu _ => ?_
    have hpermitted : grantDiscipline.Permitted held (.quarantine owner) u := ⟨hcap, hu.2 _ hcap⟩
    refine ⟨hpermitted, ?_⟩
    exact goes_return hrest

theorem goes_dropAll {owners : List SourceGrant} {Q : ManagerPost Unit}
    (hdistinct : (owners.map fun owner => owner.source.key).Nodup) (hcaps : capsOf owners ⊆ held)
    (hfits : Backs held m)
    (hQ : ∀ t, Backs (held \ capsOf owners) t → Q (held \ capsOf owners) () t) :
    Goes Q (dropAll owners) held m := by
  induction owners generalizing held m with
  | nil =>
    have hnone : held \ capsOf [] = held := by simp [capsOf]
    rw [hnone] at hQ
    exact goes_return hQ
  | cons owner owners ih =>
    rw [List.map_cons, List.nodup_cons] at hdistinct
    have hrest : held \ capsOf (owner :: owners) = (held \ {owner.cap}) \ capsOf owners := by
      ext cap
      simp [capsOf, eq_comm, and_assoc]
    refine goes_drop (hcaps ⟨owner, List.mem_cons_self, rfl⟩) hfits
      fun t ht => ih hdistinct.2 ?_ ht ?_
    · rintro _ ⟨other, hother, rfl⟩
      refine ⟨hcaps ⟨other, List.mem_cons_of_mem _ hother, rfl⟩, fun heq => hdistinct.1 ?_⟩
      obtain hkey : other.source.key = owner.source.key := ManagerCap.source.inj heq
      exact hkey ▸ List.mem_map_of_mem hother
    · rw [← hrest]
      exact hQ

theorem goes_send {owner : SourceGrant} {rest : Bool → ManagerOp α} (hcap : owner.cap ∈ held)
    (hsent : ∀ t, Backs (held \ {owner.cap}) t → Goes Q (rest true) (held \ {owner.cap}) t)
    (hfailed : ∀ t, Backs held t → Goes Q (rest false) held t) :
    Goes Q (ManagerOp.send owner >>= rest) held m := by
  refine goes_act stable_true trivial fun t hfits _ => ?_
  have hpermitted : grantDiscipline.Permitted held (.send owner) t := ⟨hcap, hfits.2 _ hcap⟩
  refine ⟨hpermitted, ?_⟩
  have hafter : Backs (ownedAfter held (.send owner) (t.send owner).1)
      (t.send owner).2 := act hfits hpermitted
  change Goes Q (rest (t.send owner).1) (ownedAfter held (.send owner) (t.send owner).1)
    (t.send owner).2
  generalize (t.send owner).2 = u at hafter ⊢
  generalize (t.send owner).1 = sent at hafter ⊢
  cases sent with
  | true => exact hsent u hafter
  | false => exact hfailed u hafter

theorem goes_install {Q : ManagerPost Unit}
    (hcap : .source source.key ∈ held) (hsafe : m.Safe source.key) (hQ : ∀ held t, Q held () t) :
    Goes Q (install id source) held m := by
  unfold install
  split
  case isTrue =>
    exact goes_release lasting_true trivial hcap hsafe fun t ht _ =>
      goes_rejected ht fun u _ => hQ _ u
  case isFalse =>
    refine goes_free (fun _ _ => trivial) (fun _ => rfl) (stable_safe hcap) hsafe
      fun t acquired hfits hsafe => ?_
    cases acquired with
    | false =>
      exact goes_release lasting_true trivial hcap hsafe fun u hu _ =>
        goes_rejected hu fun v _ => hQ _ v
    | true =>
      refine goes_send hcap (fun u hu => ?_) fun u hu => ?_
      · exact goes_return fun v _ => hQ _ v
      · exact goes_drop hcap hu fun v hv => goes_rejected hv fun w _ => hQ _ w

theorem goes_prepare {plan : List UInt8} {later : List (List UInt8)}
    {rest : RawRestoreGrant → ManagerOp α}
    (hrest : ∀ (source : RawRestoreGrant) t, t.Safe source.key →
      Goes Q (rest source) (insert (.source source.key) held) t) :
    Goes Q (ManagerOp.prepare id plan later >>= rest) held m := by
  refine goes_act stable_true trivial fun t hfits _ => ⟨trivial, ?_⟩
  refine hrest ⟨⟨id, t.nextSerial⟩, plan, later⟩ _ fun other hgranting => ?_
  exact absurd (hfits.1.bound other _ hgranting).2 (lt_irrefl _)

theorem goes_dispatch {prepared : Prepared} {Q : ManagerPost Unit}
    (hfits : Backs held m) (hQ : ∀ held t, Q held () t) :
    Goes Q (dispatchRestore id prepared) held m := by
  have hdone : ∀ held t, Goes Q (.done ()) held t := fun held t =>
    goes_return fun u _ => hQ held u
  refine goes_call (fun _ => .claim id) (fun _ => ⟨rfl, rfl⟩) hfits stable_true trivial
    fun outcome t hfits _ => ?_
  cases outcome with
  | error error => exact hdone held t
  | ok value =>
    cases prepared with
    | failed message => exact goes_rejected hfits fun u _ => hQ held u
    | isManaged outcome =>
      refine goes_call (fun _ => .startManaged id) (fun _ => ⟨rfl, rfl⟩) hfits stable_true
        trivial fun started u hfits _ => ?_
      cases started with
      | error error => exact hdone held u
      | ok value =>
        cases outcome with
        | none => exact hdone held u
        | some result =>
          exact goes_call (fun _ => .complete id result) (fun _ => ⟨rfl, rfl⟩) hfits
            stable_true trivial fun _ v _ _ => hdone held v
    | isLocal plan later =>
      refine goes_prepare fun source u hsafe => ?_
      have hcap : .source source.key ∈ insert (.source source.key) held := Set.mem_insert _ _
      refine goes_free (fun _ _ => trivial) (fun _ => rfl) (stable_safe hcap) hsafe
        fun v isOpen hfits hsafe => ?_
      cases isOpen with
      | true => exact goes_install hcap hsafe hQ
      | false =>
        exact goes_release lasting_true trivial hcap hsafe fun w hw _ =>
          goes_rejected hw fun x _ => hQ _ x

/-! ### The task -/

namespace ReapTask

variable {task : ReapTask} {owner : SourceGrant}

theorem Owned.erase (howned : task.Owned held) (hget : task.grants[id]? = some owner) :
    { task with grants := task.grants.erase id }.Owned (held \ {owner.cap}) := by
  intro other found hother
  obtain ⟨hne, hfound⟩ := getElem?_erase_eq_some hother
  obtain ⟨hid, hcap⟩ := howned other found hfound
  refine ⟨hid, hcap, fun heq => hne ?_⟩
  have hkey : found.source.key = owner.source.key := ManagerCap.source.inj heq
  calc id = owner.id := (howned id owner hget).1.symm
    _ = found.id := congrArg SourceKey.operation hkey.symm
    _ = other := hid

theorem Owned.insert (howned : task.Owned held) (hid : owner.id = id) (hcap : owner.cap ∈ held) :
    { task with grants := task.grants.insert id owner }.Owned held := by
  intro other found hother
  rcases getElem?_insert_eq_some hother with ⟨rfl, rfl⟩ | ⟨-, hfound⟩
  · exact ⟨hid, hcap⟩
  · exact howned other found hfound

end ReapTask

variable {task : ReapTask} {Q : ManagerPost ReapTask}

theorem advancePlan_key {grant next : RawRestoreGrant} (hadvance : grant.advancePlan = some next) :
    next.key = grant.key := by
  unfold RawRestoreGrant.advancePlan at hadvance
  split at hadvance
  · cases hadvance
  · rw [← Option.some.inj hadvance]

theorem goes_closePending {ids : List Nat} (howned : task.Owned held) (hfits : Backs held m)
    (hQ : ∀ held task t, Backs held t → task.Owned held → Q held task t) :
    Goes Q (task.closePending ids) held m := by
  induction ids generalizing task held m with
  | nil => exact goes_return fun t ht => hQ _ _ t ht howned
  | cons id ids ih =>
    unfold ReapTask.closePending
    cases hget : task.grants[id]? with
    | none => exact goes_reject lasting_true trivial hfits fun t ht _ => ih howned ht
    | some owner =>
      refine goes_drop (howned id owner hget).2 hfits fun t ht => ?_
      exact goes_reject lasting_true trivial ht fun u hu _ => ih (howned.erase hget) hu

theorem goes_revoked {rest : Bool → ManagerOp α} {Q : ManagerPost α}
    (hP : Lasting P) (hm : P m) (hfits : Backs held m)
    (hrest : ∀ revoked t, Backs held t → P t → Goes Q (rest revoked) held t) :
    Goes Q (ManagerOp.revoke id >>= rest) held m := by
  refine Goes.bind hfits
    (goes_call (.revoke id) (fun _ => ⟨rfl, rfl⟩) hfits hP.stable hm fun outcome t _ ht => ?_)
  cases outcome with
  | ok revoked => exact goes_done hP.stable ht (hrest revoked)
  | error error => exact goes_done hP.stable ht (hrest false)

theorem goes_revokeAll {ids : List Nat} {Q : ManagerPost Unit}
    (hfits : Backs held m) (hQ : ∀ t, Backs held t → Q held () t) :
    Goes Q (ReapTask.revokeAll ids) held m := by
  induction ids generalizing m with
  | nil => exact goes_return hQ
  | cons id ids ih => exact goes_revoked lasting_true trivial hfits fun _ t ht _ => ih ht

theorem Manager.Safe.of_over (hm : m.Valid) (hid : key.operation = id)
    (hover : m.area.Over id) : m.Safe key := by
  intro other hgranting
  obtain rfl : id = other := hid.symm.trans (hm.bound other key hgranting).1
  exact hover.not_live

section Retirement

variable (hP : Lasting P) (hm : P m) (howned : task.Owned held)
  (hfits : Backs held m)
  (hQ : ∀ held task t, Backs held t → P t → task.Owned held → Q held task t)

include hP hm howned hfits hQ

theorem goes_finish {owner : SourceGrant} (hget : task.grants[id]? = some owner)
    (hover : m.area.Over id) : Goes Q (task.finish id owner) held m := by
  obtain ⟨hid, hcap⟩ := howned id owner hget
  refine goes_call (fun _ => .drainTiming id) (fun _ => ⟨rfl, rfl⟩) hfits hP.over.stable ⟨hm, hover⟩
    fun _ t ht hPt => ?_
  refine goes_release hP hPt.1 hcap (.of_over ht.1 hid hPt.2) fun u hu hPu => ?_
  refine goes_call (.reap id) (fun _ => ⟨rfl, rfl⟩) hu hP.stable hPu fun _ v hv hPv => ?_
  refine goes_free (fun _ _ => trivial) (fun _ => rfl) hP.stable hPv fun w _ hw hPw => ?_
  exact goes_done hP.stable hPw fun x hx hPx => hQ _ _ x hx hPx (howned.erase hget)

theorem goes_retireFinished {state : GrantState} (hover : m.area.Over id) :
    Goes Q (task.retireFinished id state) held m := by
  unfold ReapTask.retireFinished
  cases hget : task.grants[id]? with
  | none => exact goes_done hP.stable hm fun t ht hPt => hQ held task t ht hPt howned
  | some owner =>
    dsimp only
    split
    case isTrue =>
      exact goes_call (fun _ => .drainSucceeded id) (fun _ => ⟨rfl, rfl⟩) hfits hP.over.stable
        ⟨hm, hover⟩ fun _ t ht hPt => goes_finish hP hPt.1 howned ht hQ hget hPt.2
    case isFalse => exact goes_finish hP hm howned hfits hQ hget hover

theorem goes_retirePart : Goes Q (task.retirePart id) held m := by
  have hend : ∀ t, P t → Goes Q (.done task) held t := fun t ht =>
    goes_done hP.stable ht fun u hu hPu => hQ held task u hu hPu howned
  unfold ReapTask.retirePart
  split
  case isFalse => exact goes_revoked hP hm hfits fun _ t ht hPt => hend t hPt
  case isTrue =>
    cases hget : task.grants[id]? with
    | none =>
      refine goes_call (fun _ => .continueLocal id) (fun _ => ⟨rfl, rfl⟩) hfits hP.stable hm
        fun outcome t ht hPt => ?_
      cases outcome with
      | error error => exact hend t hPt
      | ok value => exact goes_reject hP hPt ht fun u hu hPu => hend u hPu
    | some owner =>
      obtain ⟨hid, hcap⟩ := howned id owner hget
      refine Goes.bind hfits (goes_method hP.stable hm fun _ t ht hPt => ?_)
      refine keeps_continueLocal hP hPt hcap hid fun outcome u hu hPu hsafe => ?_
      cases outcome with
      | error error => exact hend u hPu
      | ok value =>
        dsimp only
        cases hadvance : owner.source.advancePlan with
        | some source =>
          have hkey := advancePlan_key hadvance
          refine goes_done hP.stable hPu fun v hv hPv => hQ _ _ v hv hPv ?_
          refine howned.insert ?_ ?_
          · exact (congrArg SourceKey.operation hkey).trans hid
          · change ManagerCap.source source.key ∈ held
            rw [hkey]
            exact hcap
        | none =>
          refine goes_release hP hPu hcap (hsafe rfl) fun v hv hPv => ?_
          refine goes_free (fun _ _ => trivial) (fun _ => rfl) hP.stable hPv fun w _ hw hPw => ?_
          refine goes_reject hP hPw hw fun x hx hPx => ?_
          exact goes_done hP.stable hPx fun y hy hPy => hQ _ _ y hy hPy (howned.erase hget)

theorem goes_retire {state : GrantState} (hshown : state.isOver = true → m.area.Over id) :
    Goes Q (task.retire id state) held m := by
  have hlasting : Lasting fun m => P m ∧ (state.isOver = true → m.area.Over id) :=
    fun _ _ _ _ hstep hs => ⟨hP _ _ _ _ hstep hs.1, fun hover => hstep.over (hs.2 hover)⟩
  have hfirst : ∀ {rest : ManagerOp ReapTask},
      (∀ t, Backs held t → P t → (state.isOver = true → t.area.Over id) → Goes Q rest held t) →
      Goes Q (ManagerOp.call (releasePlan id) >>= fun _ => rest) held m := by
    intro rest hrest
    exact goes_call (fun _ => .releasePlan id) (fun _ => ⟨rfl, rfl⟩) hfits hlasting.stable
      ⟨hm, hshown⟩ fun _ t ht hPt => hrest t ht hPt.1 hPt.2
  have hend : ∀ t, P t → Goes Q (.done task) held t := fun t ht =>
    goes_done hP.stable ht fun u hu hPu => hQ held task u hu hPu howned
  cases state with
  | active | activeMore => exact hfirst fun t _ hPt _ => hend t hPt
  | partDrained => exact hfirst fun t ht hPt _ => goes_retirePart hP hPt howned ht hQ
  | drained | revoked =>
    exact hfirst fun t ht hPt hshown => goes_retireFinished hP hPt howned ht hQ (hshown rfl)
  | _ => exact hend m hm

end Retirement

theorem goes_retireAll {updates : List (Nat × GrantState)} (howned : task.Owned held)
    (hfits : Backs held m) (hconfirms : m.Confirms updates)
    (hQ : ∀ held task t, Backs held t → task.Owned held → Q held task t) :
    Goes Q (task.retireAll updates) held m := by
  induction updates generalizing task held m with
  | nil => exact goes_return fun t ht => hQ held task t ht howned
  | cons update updates ih =>
    obtain ⟨hfirst, hrest⟩ := List.forall_mem_cons.mp hconfirms
    refine Goes.bind hfits (goes_retire lasting_confirms hrest howned hfits ?_ hfirst)
    exact fun held task t ht hconfirms howned => ih howned ht hconfirms

theorem goes_publish {Q : ManagerPost (Except CompletionError Bool)}
    (hcap : .source source.key ∈ held) (hid : source.key.operation = id)
    (hQ : ∀ outcome t, Backs held t → Q held outcome t) :
    Goes Q (ReapTask.publish id source) held m := by
  have hall : (publishLocal id source.plan source.more).All
      (RestoreCall.publishLocal id source.plan source.more).Does := by
    have hbody := does_body (.publishLocal id source.plan source.more)
    exact Process.All.of_bind hbody
  refine goes_method stable_true trivial fun _ t _ _ => ?_
  refine keeps_over hall stable_true (fun access u hdoes hu _ => ?_)
    (fun _ _ _ _ _ => trivial) trivial (fun outcome u hu _ => hQ outcome u hu)
    fun _ _ _ => ⟨rfl, trivial⟩
  refine hdoes.admitted (fun hcall => by cases hcall) fun other before after note hother hmoves => ?_
  obtain rfl : id = other := Option.some.inj hother
  subst hid
  exact .grant rfl hcap (hu.2 _ hcap) (RestoreCall.moves_diagram hmoves)
    (RestoreCall.publish_moves hmoves)

section

variable (howned : task.Owned held)

include howned

theorem goes_publishPending {ids : List Nat} (hfits : Backs held m)
    (hQ : ∀ held task t, Backs held t → task.Owned held → Q held task t) :
    Goes Q (task.publishPending ids) held m := by
  induction ids generalizing task held m with
  | nil => exact goes_return fun t ht => hQ _ _ t ht howned
  | cons id ids ih =>
    unfold ReapTask.publishPending
    cases hget : task.grants[id]? with
    | none => exact ih howned hfits
    | some owner =>
      obtain ⟨hid, hcap⟩ := howned id owner hget
      have hrejected : ∀ (error : CompletionError) t, Backs held t →
          Goes Q (owner.drop >>= fun _ => ManagerOp.reject id error.toString >>= fun _ =>
            { task with grants := task.grants.erase id }.publishPending ids) held t :=
        fun error t ht => goes_drop hcap ht fun u hu =>
          goes_reject lasting_true trivial hu fun v hv _ => ih (howned.erase hget) hv
      refine Goes.bind hfits (goes_publish hcap hid fun outcome t ht => ?_)
      cases outcome with
      | ok published =>
        cases published with
        | true => exact ih howned ht
        | false =>
          refine goes_drop hcap ht fun u hu => ?_
          exact goes_call (.reject id "restore preparation cancelled") (fun _ => ⟨rfl, rfl⟩) hu
            stable_true trivial fun _ v hv _ => ih (howned.erase hget) hv
      | error error =>
        cases error with
        | planFull =>
          exact goes_return fun u hu => hQ _ _ u hu howned
        | _ => exact hrejected _ t ht

theorem ReapTask.Owned.caps : capsOf task.owners ⊆ held := by
  rintro _ ⟨owner, howner, rfl⟩
  obtain ⟨⟨id, found⟩, hmem, rfl⟩ := List.mem_map.mp howner
  exact (howned id found (ExtTreeMap.mem_toList_iff_getElem?_eq_some.mp hmem)).2

theorem goes_stop {Q : ManagerPost Unit}
    (hfits : Backs held m) (hQ : ∀ held t, Q held () t) : Goes Q task.stop held m := by
  have hdistinct := ReapTask.Owned.distinct fun id owner hget => (howned id owner hget).1
  refine Goes.bind hfits (goes_dropAll hdistinct howned.caps hfits fun t ht => ?_)
  refine goes_act stable_true trivial fun u hu _ => ⟨trivial, ?_⟩
  have hfits := act hu (show grantDiscipline.Permitted _ .closeReceiver u from trivial)
  refine goes_dropAll ?_ Set.subset_union_right hfits fun v _ => hQ _ v
  have hkeys := hu.1.distinct
  rw [Manager.keys_eq, List.nodup_append] at hkeys
  exact hkeys.1

theorem goes_putTask {Q : ManagerPost Unit}
    (hQ : ∀ held t, Q held () t) : Goes Q (ManagerOp.putTask task) held m := by
  refine goes_act stable_true trivial fun t ht _ => ⟨⟨howned, ?_⟩, ?_⟩
  · exact fun owner howner => ht.2 _ (howned.caps ⟨owner, howner, rfl⟩)
  · exact goes_return fun u _ => hQ _ u

theorem goes_turn {Q : ManagerPost Unit}
    (hfits : Backs held m) (hQ : ∀ held t, Q held () t) : Goes Q task.turn held m := by
  refine Goes.bind hfits (goes_method stable_true trivial fun fault t ht _ => ?_)
  refine keeps_managerUpdates ht fault (fun updates u hu hconfirms => ?_) fun error u hu =>
    goes_stop howned hu hQ
  refine Goes.bind hu (goes_retireAll howned hu hconfirms fun held task v hv howned => ?_)
  refine Goes.bind hv (goes_publishPending howned hv fun held task w hw howned => ?_)
  cases (!task.connected && task.grants.isEmpty) with
  | true => exact goes_stop howned hw hQ
  | false => exact goes_putTask howned hQ

theorem ReapTask.Owned.replace {owner old : SourceGrant}
    (hget : task.grants[owner.id]? = some old) (hcap : owner.cap ∈ held \ {old.cap}) :
    { task with grants := task.grants.insert owner.id owner }.Owned (held \ {old.cap}) := by
  intro other found hother
  rcases getElem?_insert_eq_some hother with ⟨rfl, rfl⟩ | ⟨hne, hfound⟩
  · exact ⟨rfl, hcap⟩
  · refine howned.erase hget other found ?_
    rw [ExtTreeMap.getElem?_erase, if_neg (by simpa using hne)]
    exact hfound

theorem goes_accept {owner : SourceGrant} (hnew : owner.cap ∉ held)
    (hfits : Backs (insert owner.cap held) m)
    (hQ : ∀ held task t, Backs held t → task.Owned held → Q held task t) :
    Goes Q (task.accept owner) (insert owner.cap held) m := by
  have hown : task.Owned (insert owner.cap held) := fun id found hget =>
    ⟨(howned id found hget).1, Set.mem_insert_of_mem _ (howned id found hget).2⟩
  unfold ReapTask.accept
  cases hget : task.grants[owner.id]? with
  | none =>
    exact goes_return fun t ht =>
      hQ _ _ t ht (hown.insert rfl (Set.mem_insert _ _))
  | some old =>
    refine goes_drop (hown _ old hget).2 hfits fun t ht => ?_
    refine goes_return fun u hu => hQ _ _ u hu ?_
    refine hown.replace hget ⟨Set.mem_insert _ _, fun heq => hnew ?_⟩
    have hold := (howned _ old hget).2
    rwa [← (show owner.cap = old.cap from heq)] at hold

theorem goes_disconnect (hfits : Backs held m)
    (hQ : ∀ held task t, Backs held t → task.Owned held → Q held task t) :
    Goes Q task.disconnect held m := by
  refine Goes.bind hfits (goes_closePending howned hfits fun held task t ht howned => ?_)
  refine Goes.bind ht (goes_revokeAll ht fun u hu => ?_)
  exact goes_return fun v hv => hQ held task v hv howned

end

theorem goes_receive {rest : ChannelItem → ManagerOp α} {Q : ManagerPost α}
    (howner : ∀ (owner : SourceGrant) t, owner.cap ∉ held →
      Backs (insert owner.cap held) t →
      Goes Q (rest (.owner owner)) (insert owner.cap held) t)
    (hnothing : ∀ t, Backs held t → Goes Q (rest .nothing) held t)
    (hclosed : ∀ t, Backs held t → Goes Q (rest .closed) held t) :
    Goes Q (ManagerOp.receive >>= rest) held m := by
  refine goes_act stable_true trivial fun t ht _ => ⟨trivial, ?_⟩
  have hafter : Backs (ownedAfter held .receive t.receive.1) t.receive.2 :=
    act ht (show grantDiscipline.Permitted held .receive t from trivial)
  change Goes Q (rest t.receive.1) (ownedAfter held .receive t.receive.1) t.receive.2
  have hqueue : ∀ owner, t.receive.1 = .owner owner → owner ∈ t.queue := by
    intro owner heq
    unfold Manager.receive at heq
    split at heq
    case h_1 first queue hqueue =>
      obtain rfl := ChannelItem.owner.inj heq
      rw [hqueue]
      exact List.mem_cons_self
    case h_2 => split at heq <;> cases heq
  generalize t.receive.2 = u at hafter ⊢
  generalize t.receive.1 = received at hafter hqueue ⊢
  cases received with
  | nothing => exact hnothing u hafter
  | closed => exact hclosed u hafter
  | owner owner =>
    refine howner owner u (fun hheld => (ht.2 _ hheld).2.2 ?_) hafter
    rw [Manager.keys_eq]
    exact List.mem_append_left _ (List.mem_map_of_mem (hqueue owner rfl))

theorem goes_takeTask {rest : Option ReapTask → ManagerOp α}
    {Q : ManagerPost α}
    (hnone : ∀ t, Backs held t → Goes Q (rest none) held t)
    (hsome : ∀ (task : ReapTask) held t, Backs held t → task.Owned held →
      Goes Q (rest (some task)) held t) : Goes Q (ManagerOp.takeTask >>= rest) held m := by
  refine goes_act stable_true trivial fun t ht _ => ⟨trivial, ?_⟩
  have hafter : Backs (ownedAfter held .takeTask t.task) { t with task := none } :=
    act ht (show grantDiscipline.Permitted held .takeTask t from trivial)
  change Goes Q (rest t.task) (ownedAfter held .takeTask t.task) { t with task := none }
  have hkeyed := ht.1.keyed
  generalize ({ t with task := none } : Manager) = u at hafter ⊢
  cases htask : t.task with
  | none =>
    rw [htask] at hafter
    exact hnone u hafter
  | some task =>
    rw [htask] at hafter
    refine hsome task _ u hafter fun id owner hget => ⟨hkeyed task htask id owner hget, .inr ?_⟩
    exact ⟨owner, List.mem_map_of_mem (ExtTreeMap.mem_toList_iff_getElem?_eq_some.mpr hget), rfl⟩

theorem goes_reapSources {event : SelectEvent} {Q : ManagerPost Unit}
    (hQ : ∀ held t, Q held () t) : Goes Q (reapSources event) held m := by
  refine goes_takeTask (fun t _ => ?_) fun task held t ht howned => ?_
  · exact goes_return fun u _ => hQ _ u
  cases event with
  | received =>
    dsimp only
    split
    case isFalse => exact goes_putTask howned hQ
    case isTrue =>
      refine goes_receive (fun owner u hnew hu => ?_) (fun u _ => goes_putTask howned hQ)
        fun u hu => ?_
      · exact Goes.bind hu (goes_accept howned hnew hu fun held task v hv howned =>
          goes_turn howned hv hQ)
      · exact Goes.bind hu (goes_disconnect howned hu fun held task v hv howned =>
          goes_turn howned hv hQ)
  | notified => exact goes_turn howned ht hQ
  | tick =>
    dsimp only
    split
    case isTrue => exact goes_putTask howned hQ
    case isFalse => exact goes_turn howned ht hQ
  | notificationFailed => exact goes_stop howned ht hQ
  | aborted => exact goes_stop howned ht hQ

end Functions

end OrbitKV
