import OrbitKV.Channel.Completion

/-!
# The accesses of restore calls

What each method may do to the area, whatever the area answers.
-/

namespace OrbitKV

open Std

open RestoreCompletions

def GrantState.moves : GrantState → GrantState → Bool
  | .reserved, .preparing | .reserved, .acknowledged => true
  | .preparing, .cancelRequested | .preparing, .managed | .preparing, .granted
  | .preparing, .grantedMore | .preparing, .reaped => true
  | .cancelRequested, .managed | .cancelRequested, .reaped => true
  | .granted, .active | .granted, .revoked => true
  | .grantedMore, .activeMore | .grantedMore, .revoked => true
  | .active, .drained | .activeMore, .drained | .activeMore, .partDrained => true
  | .partDrained, .preparing | .partDrained, .revoked => true
  | .drained, .reaped | .revoked, .reaped | .managed, .reaped => true
  | .reaped, .acknowledged => true
  | _, _ => false

def GrantState.isGranted : GrantState → Bool
  | .granted | .grantedMore => true
  | _ => false

def RestoreCall.moves : RestoreCall → GrantState → GrantState → Bool
  | .cancel _, .reserved, .acknowledged | .cancel _, .preparing, .cancelRequested => true
  | .claimLocal .., .granted, .active | .claimLocal .., .grantedMore, .activeMore => true
  | .claimLocal .., .active, .drained | .claimLocal .., .activeMore, .drained => true
  | .drained .., .active, .drained | .drained .., .activeMore, .drained => true
  | .drained .., .activeMore, .partDrained => true
  | .poll _, .reaped, .acknowledged => true
  | .claim _, .reserved, .preparing => true
  | .startManaged _, .preparing, .managed | .startManaged _, .cancelRequested, .managed => true
  | .publishLocal .., .preparing, .granted | .publishLocal .., .preparing, .grantedMore => true
  | .continueLocal _, .partDrained, .preparing => true
  | .revoke .., .granted, .revoked | .revoke .., .grantedMore, .revoked => true
  | .revoke .., .partDrained, .revoked => true
  | .reap .., .drained, .reaped | .reap .., .revoked, .reaped => true
  | .reject .., .preparing, .reaped | .reject .., .cancelRequested, .reaped => true
  | .complete .., .managed, .reaped => true
  | _, _, _ => false

theorem RestoreCall.moves_diagram {call : RestoreCall} {source target : GrantState}
    (hmoves : call.moves source target = true) : source.moves target = true := by
  unfold RestoreCall.moves at hmoves
  split at hmoves <;> first | rfl | cases hmoves

def RestoreCall.offers : RestoreCall → RestoreResult → Prop
  | .drained _ result _ _, final | .complete _ result, final => final = result
  | .reject _ message _, final => final = .error message
  | .reap .., final => final = revokedResult
  | .claimLocal .., final => ∃ error : CompletionError,
      final = .error ("Restore plan rejected before execution: " ++ error.toString)
  | _, _ => False

def RestoreCall.isCalm : RestoreCall → Bool
  | .publishLocal .. | .releasePlan _ | .reap .. => false
  | _ => true

def Access.Calm : Access → Prop
  | .exchange .. | .placePlan .. | .removePlan _ | .writeResult .. => False
  | .storeField _ field _ => field = .claimed
  | _ => True

def Access.OfPlan : Access → Prop
  | .placePlan .. | .removePlan _ => True
  | .storeField _ field _ => field ≠ .result
  | _ => False

/-- **What a call may do** to the area. -/
inductive RestoreCall.Does (call : RestoreCall) : Access → Prop
  | calm {access : Access} (hcalm : access.Calm) : call.Does access
  | move {id : Nat} {source target : GrantState} {note : Option RestoreResult} (hpos : 0 < id)
      (hid : call.id? = some id) (hmoves : call.moves source target = true)
      (hnote : ∀ result ∈ note, call.offers result) :
      call.Does (.exchange (slotOf id) (tagOf id source) (tagOf id target) note)
  | reserve {id tag : Nat} (hcall : call = .reserve)
      (hfree : tag = 0 ∨ tag % 16 = GrantState.acknowledged.code) (hless : tag / 16 < id) :
      call.Does (.exchange (slotOf id) tag (tagOf id .reserved) none)
  | write {slot : Slot} {result : RestoreResult} (hoffers : call.offers result) :
      call.Does (.writeResult slot result)
  | plan {access : Access} (hcall : call.isCalm = false) (hplan : access.OfPlan) : call.Does access

def claimRest (id : Nat) (fault drainFault : Option String) : Op (Option (List UInt8)) := do
  match ← readPlan id fault with
  | .ok plan => return some plan
  | .error error =>
    let _ ← drained id (.error ("Restore plan rejected before execution: " ++ error.toString))
      none drainFault
    .fail error

theorem claimFrom_eq (id : Nat) (source target : GrantState) (fault drainFault : Option String) :
    claimFrom id source target fault drainFault =
      transition id source target none >>= fun _ => claimRest id fault drainFault :=
  rfl

section Accesses

variable {P : Access → Prop} {id : Nat} {source target : GrantState}
  {access : Access} {α : Type}

theorem all_offset (id : Nat) : (offset id).All P := by
  unfold offset
  split <;> trivial

theorem all_signal (fault : Option String) : (signal fault).All P := by
  cases fault <;> trivial

theorem all_perform (haccess : P access) : (Process.act access .done : Op access.Answer).All P :=
  ⟨haccess, fun _ => trivial⟩

theorem all_act {rest : access.Answer → Op α} (haccess : P access)
    (hrest : ∀ answer, (rest answer).All P) :
    ((Process.act access .done : Op access.Answer) >>= rest).All P :=
  Process.All.bind (all_perform haccess) hrest

theorem all_map {β : Type} {f : α → β} {process : Op α} (hall : process.All P) :
    (f <$> process).All P :=
  Process.All.bind hall fun _ => trivial

def Moves (P : Access → Prop) (id : Nat) (source target : GrantState)
    (note : Option RestoreResult) : Prop :=
  0 < id → P (.exchange (slotOf id) (tagOf id source) (tagOf id target) note)

theorem all_tryTransition {note : Option RestoreResult} (hmove : Moves P id source target note) :
    (tryTransition id source target note).All P := by
  unfold tryTransition offset
  split
  case isTrue => trivial
  case isFalse hvalid => exact ⟨hmove (by omega), fun _ => trivial⟩

theorem all_transition {note : Option RestoreResult} (hmove : Moves P id source target note) :
    (transition id source target note).All P := by
  refine (all_tryTransition hmove).bind fun success => ?_
  cases success <;> trivial

variable (hcalm : ∀ access : Access, access.Calm → P access)

include hcalm

theorem all_calm {rest : access.Answer → Op α} (haccess : access.Calm)
    (hrest : ∀ answer, (rest answer).All P) :
    ((Process.act access .done : Op access.Answer) >>= rest).All P :=
  all_act (hcalm access haccess) hrest

theorem all_state (id : Nat) : (state id).All P := by
  refine (all_offset id).bind fun slot => all_calm hcalm trivial fun tag => ?_
  split
  · trivial
  · split <;> trivial

theorem all_dirty (id : Nat) (fault : Option String) : (dirty id fault).All P :=
  all_calm hcalm trivial fun _ => all_signal fault

theorem all_reserveWithin
    (hreserve : ∀ {id tag : Nat}, tag = 0 ∨ tag % 16 = GrantState.acknowledged.code →
      tag / 16 < id → P (.exchange (slotOf id) tag (tagOf id .reserved) none)) (attempts : Nat) :
    (reserveWithin attempts).All P := by
  induction attempts with
  | zero => trivial
  | succ attempts ih =>
    refine all_calm hcalm trivial fun answer => ?_
    cases answer with
    | none => trivial
    | some id =>
      dsimp only [offset]
      split
      case isTrue => trivial
      case isFalse =>
        rw [Process.done_bind]
        refine all_calm hcalm trivial fun tag => ?_
        split
        case isFalse => exact ih
        case isTrue hfree =>
          refine all_act (hreserve hfree.1 hfree.2) fun success => ?_
          cases success
          · exact ih
          · trivial

theorem all_cancel (hearly : Moves P id .reserved .acknowledged none)
    (hlate : Moves P id .preparing .cancelRequested none) : (cancel id).All P := by
  refine (all_state hcalm id).bind fun current => ?_
  cases current with
  | reserved =>
    refine (all_tryTransition hearly).bind fun success => ?_
    cases success <;> trivial
  | preparing =>
    refine (all_tryTransition hlate).bind fun success => ?_
    cases success <;> trivial
  | _ => trivial

theorem all_startManaged (hpreparing : Moves P id .preparing .managed none)
    (hcancelled : Moves P id .cancelRequested .managed none) : (startManaged id).All P := by
  refine (all_state hcalm id).bind fun current => ?_
  split
  case isFalse => trivial
  case isTrue hsource =>
    have hmove : Moves P id current .managed none := by
      rcases hsource with rfl | rfl
      · exact hpreparing
      · exact hcancelled
    refine (all_tryTransition hmove).bind fun success => ?_
    cases success <;> trivial

theorem all_drained {result : RestoreResult} (hwrite : ∀ slot, P (.writeResult slot result))
    (hterminal : ∀ source, source = .active ∨ source = .activeMore →
      Moves P id source .drained (some result))
    (hpart : result.failed ≠ 1 → Moves P id .activeMore .partDrained none)
    (timing : Option RestoreTiming) (fault : Option String) :
    (drained id result timing fault).All P := by
  refine (all_state hcalm id).bind fun current => ?_
  split
  case isTrue => trivial
  case isFalse hsource =>
    refine (all_offset id).bind fun slot => ?_
    refine all_calm hcalm trivial fun _ => ?_
    refine all_act (hwrite slot) fun _ => ?_
    have hactive : current = .active ∨ current = .activeMore := by
      by_contra hneither
      exact hsource (not_or.mp hneither)
    refine (all_transition ?_).bind fun _ => (all_dirty hcalm id fault).bind fun _ => trivial
    by_cases hfinal : current = .active ∨ result.failed = 1
    · rw [if_pos hfinal, if_pos hfinal]
      exact hterminal current hactive
    · rw [if_neg hfinal, if_neg hfinal]
      obtain ⟨hcurrent, hfailed⟩ := not_or.mp hfinal
      obtain rfl := hactive.resolve_left hcurrent
      exact hpart hfailed

theorem all_readPlan (id : Nat) (fault : Option String) : (readPlan id fault).All P := by
  refine (all_offset id).bind fun slot => ?_
  refine all_calm hcalm trivial fun start => ?_
  refine all_calm hcalm trivial fun length => ?_
  split
  · trivial
  refine all_calm hcalm trivial fun plan => ?_
  refine all_calm hcalm rfl fun _ => ?_
  refine all_calm hcalm trivial fun _ => ?_
  cases fault <;> trivial

section Rejections

variable
    (hwrite : ∀ (error : CompletionError) (slot : Slot), P (.writeResult slot
      (.error ("Restore plan rejected before execution: " ++ error.toString))))
    (hrejected : ∀ (error : CompletionError) (source : GrantState),
      source = .active ∨ source = .activeMore → Moves P id source .drained
        (some (.error ("Restore plan rejected before execution: " ++ error.toString))))

include hwrite hrejected

theorem all_claimRest (fault drainFault : Option String) : (claimRest id fault drainFault).All P := by
  refine (all_readPlan hcalm id fault).bind fun plan => ?_
  cases plan with
  | ok plan => trivial
  | error error =>
    refine (all_drained hcalm (hwrite error) (hrejected error) ?_ none drainFault).bind fun _ => ?_
    · exact fun hfailed => absurd rfl hfailed
    · trivial

theorem all_claimLocal (hclaim : Moves P id .granted .active none)
    (hclaimMore : Moves P id .grantedMore .activeMore none)
    (fault drainFault : Option String) : (claimLocal id fault drainFault).All P := by
  refine (all_state hcalm id).bind fun current => ?_
  cases current with
  | granted =>
    refine (all_transition hclaim).bind fun _ => ?_
    exact all_claimRest hcalm hwrite hrejected fault drainFault
  | grantedMore =>
    refine (all_transition hclaimMore).bind fun _ => ?_
    exact all_claimRest hcalm hwrite hrejected fault drainFault
  | _ => trivial

end Rejections

theorem all_gatherUpdates (slots : List Slot) : (gatherUpdates slots).All P := by
  induction slots with
  | nil => trivial
  | cons slot slots ih =>
    refine all_calm hcalm trivial fun tag => ?_
    split
    · exact ih
    · split
      · trivial
      · exact ih.bind fun _ => trivial

theorem all_gatherWords (indices : List Nat) : (gatherWords indices).All P := by
  induction indices with
  | nil => trivial
  | cons index indices ih =>
    refine all_calm hcalm trivial fun slots => ?_
    exact (all_gatherUpdates hcalm slots).bind fun _ => ih.bind fun _ => trivial

theorem all_managerUpdates (fault : Option String) : (managerUpdates fault).All P :=
  (all_signal fault).bind fun _ => all_gatherWords hcalm _

theorem all_revokeFrom (hmove : Moves P id source .revoked none) (fault : Option String) :
    (revokeFrom id source fault).All P := by
  refine (all_tryTransition hmove).bind fun success => ?_
  cases success
  · trivial
  · exact (all_dirty hcalm id fault).bind fun _ => trivial

theorem all_revoke
    (hmove : ∀ source, source = .granted ∨ source = .grantedMore ∨ source = .partDrained →
      Moves P id source .revoked none) (fault : Option String) : (revoke id fault).All P := by
  refine (all_state hcalm id).bind fun current => ?_
  cases current with
  | granted | grantedMore | partDrained =>
    exact all_revokeFrom hcalm (hmove _ (by decide)) fault
  | _ => trivial

theorem all_drainTiming (id : Nat) : (drainTiming id).All P := by
  refine (all_state hcalm id).bind fun current => ?_
  split
  · trivial
  refine (all_offset id).bind fun slot => all_calm hcalm trivial fun timing => ?_
  refine (all_state hcalm id).bind fun current => ?_
  split <;> trivial

theorem all_drainSucceeded (id : Nat) : (drainSucceeded id).All P := by
  refine (all_state hcalm id).bind fun current => ?_
  cases current with
  | drained =>
    refine (all_offset id).bind fun slot => ?_
    exact all_calm hcalm trivial fun result => trivial
  | _ => trivial

theorem all_reject {message : String} (hwrite : ∀ slot, P (.writeResult slot (.error message)))
    (hmove : ∀ source, source = .preparing ∨ source = .cancelRequested →
      Moves P id source .reaped (some (.error message))) (fault : Option String) :
    (reject id message fault).All P := by
  refine (all_state hcalm id).bind fun current => ?_
  split
  case isFalse => trivial
  case isTrue hsource =>
    refine (all_offset id).bind fun slot => all_act (hwrite slot) fun _ => ?_
    refine (all_tryTransition (hmove current hsource)).bind fun success => ?_
    cases success
    · trivial
    · exact all_signal fault

theorem all_complete {result : RestoreResult} (hwrite : ∀ slot, P (.writeResult slot result))
    (hmove : Moves P id .managed .reaped (some result)) : (complete id result).All P := by
  refine (all_state hcalm id).bind fun current => ?_
  split
  · trivial
  refine (all_offset id).bind fun slot => all_act (hwrite slot) fun _ => ?_
  exact all_transition hmove

theorem all_poll (hmove : Moves P id .reaped .acknowledged none) : (poll id).All P := by
  refine (all_offset id).bind fun slot => (all_state hcalm id).bind fun current => ?_
  split
  · trivial
  split
  · trivial
  refine all_calm hcalm trivial fun result => ?_
  dsimp only
  split
  · trivial
  refine all_calm hcalm trivial fun bytes => ?_
  refine (all_transition hmove).bind fun _ => ?_
  split <;> trivial

/-! ### Methods that touch plans -/

section Plans

variable (hplan : ∀ access : Access, access.OfPlan → P access)

include hplan

theorem all_releasePlan (id : Nat) : (releasePlan id).All P := by
  have hremove : P (.removePlan id) := hplan _ trivial
  refine (all_offset id).bind fun slot => (all_state hcalm id).bind fun current => ?_
  cases current with
  | active | activeMore =>
    refine all_calm hcalm trivial fun claimed => ?_
    split
    · exact all_perform hremove
    · trivial
  | revoked | drained | partDrained => exact all_perform hremove
  | _ => trivial

theorem all_reap (hwrite : ∀ slot, P (.writeResult slot revokedResult))
    (hdrained : Moves P id .drained .reaped none)
    (hrevoked : Moves P id .revoked .reaped (some revokedResult)) (fault : Option String) :
    (reap id fault).All P := by
  have hremove : P (.removePlan id) := hplan _ trivial
  refine (all_state hcalm id).bind fun current => ?_
  cases current with
  | drained =>
    refine all_act hremove fun _ => ?_
    exact (all_transition hdrained).bind fun _ => all_signal fault
  | revoked =>
    refine all_act hremove fun _ => (all_offset id).bind fun slot => ?_
    refine all_act (hwrite slot) fun _ => ?_
    exact (all_transition hrevoked).bind fun _ => all_signal fault
  | _ => trivial

theorem all_unpublish (id : Nat) : (unpublish id).All P := by
  refine (all_state hcalm id).bind fun current => all_act (hplan _ trivial) fun _ => ?_
  split <;> trivial

theorem all_publishLocal
    (hmove : ∀ target, target = .granted ∨ target = .grantedMore →
      Moves P id .preparing target none) (plan : List UInt8) (more : Bool) :
    (publishLocal id plan more).All P := by
  refine (all_state hcalm id).bind fun current => ?_
  split
  · trivial
  refine (all_state hcalm id).bind fun current => ?_
  split
  · trivial
  split
  · trivial
  refine all_act (hplan _ trivial) fun placed => ?_
  cases placed with
  | error error => trivial
  | ok start =>
    refine (all_offset id).bind fun slot => ?_
    refine all_act (hplan _ nofun) fun _ => all_act (hplan _ nofun) fun _ => ?_
    refine all_calm hcalm rfl fun _ => ?_
    refine (all_tryTransition (hmove _ ?_)).bind fun success => ?_
    · cases more <;> decide
    · cases success
      · exact all_unpublish hcalm hplan id
      · trivial

end Plans

end Accesses

theorem does_body (call : RestoreCall) : call.body.All call.Does := by
  have hcalm : ∀ access : Access, access.Calm → call.Does access := fun _ => .calm
  cases call with
  | reserve => exact all_map (all_reserveWithin hcalm (.reserve rfl) _)
  | cancel id =>
    exact all_map (all_cancel hcalm (.move · rfl rfl nofun) (.move · rfl rfl nofun))
  | claimLocal id fault drainFault =>
    refine all_map (all_claimLocal hcalm (fun error _ => .write ⟨error, rfl⟩) ?_
      (.move · rfl rfl nofun) (.move · rfl rfl nofun) fault drainFault)
    rintro error source (rfl | rfl) hpos
    all_goals exact .move hpos rfl rfl fun result hresult => ⟨error, (Option.some.inj hresult).symm⟩
  | drained id result timing fault =>
    refine all_map
      (all_drained hcalm (fun _ => .write rfl) ?_ (fun _ => (.move · rfl rfl nofun)) timing fault)
    rintro source (rfl | rfl) hpos
    all_goals exact .move hpos rfl rfl fun _ hresult => (Option.some.inj hresult).symm
  | poll id => exact all_map (all_poll hcalm (.move · rfl rfl nofun))
  | claim id => exact all_map (all_transition (.move · rfl rfl nofun))
  | startManaged id =>
    exact all_map (all_startManaged hcalm (.move · rfl rfl nofun) (.move · rfl rfl nofun))
  | publishLocal id plan more =>
    refine all_map (all_publishLocal hcalm (fun _ => .plan rfl) ?_ plan more)
    rintro target (rfl | rfl) hpos
    all_goals exact .move hpos rfl rfl nofun
  | continueLocal id => exact all_map (all_transition (.move · rfl rfl nofun))
  | revoke id fault =>
    refine all_map (all_revoke hcalm ?_ fault)
    rintro source (rfl | rfl | rfl) hpos
    all_goals exact .move hpos rfl rfl nofun
  | releasePlan id => exact all_map (all_releasePlan hcalm (fun _ => .plan rfl) id)
  | drainTiming id => exact all_map (all_drainTiming hcalm id)
  | drainSucceeded id => exact all_map (all_drainSucceeded hcalm id)
  | reap id fault =>
    refine all_map (all_reap hcalm (fun _ => .plan rfl) (fun _ => .write rfl)
      (.move · rfl rfl nofun) ?_ fault)
    exact fun hpos => .move hpos rfl rfl fun _ hresult => (Option.some.inj hresult).symm
  | reject id message fault =>
    refine all_map (all_reject hcalm (fun _ => .write rfl) ?_ fault)
    rintro source (rfl | rfl) hpos
    all_goals exact .move hpos rfl rfl fun _ hresult => (Option.some.inj hresult).symm
  | complete id result =>
    refine all_map (all_complete hcalm (fun _ => .write rfl) ?_)
    exact fun hpos => .move hpos rfl rfl fun _ hresult => (Option.some.inj hresult).symm
  | managerUpdates fault => exact all_map (all_managerUpdates hcalm fault)
  | state id => exact all_map (all_state hcalm id)

end OrbitKV
