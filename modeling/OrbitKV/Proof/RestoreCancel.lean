import OrbitKV.Proof.RestoreWords

/-!
# Cancelled and stale restores

Cancellation and admission exclude each other in the log. A call for an operation whose slot has
passed on finds a larger operation in the state word.
-/

namespace OrbitKV

open Std

open RestoreCompletions

/-! ### What a successful call has done -/

def wordDiscipline : Discipline Access.perform Empty where
  Valid := Area.Ordered
  Backed _ _ := True
  Permitted _ access _ := access.Allowed
  after _ _ _ := ∅
  valid hvalid hallowed := hvalid.perform hallowed
  fresh _ _ hcap := absurd hcap (Set.notMem_empty _)
  backed _ _ _ _ := trivial
  frame _ _ _ _ := trivial

def RestoreCall.evidence : RestoreCall → RestoreReply → Option (Exchange → Prop)
  | .reserve, .operation id => some (Exchange.IsReservation id)
  | .cancel id, .flag true => some (Exchange.IsMove id .reserved .acknowledged)
  | .claim id, _ => some (Exchange.IsMove id .reserved .preparing)
  | .startManaged id, _ => some (Exchange.IsMove id .reserved .preparing)
  | .publishLocal id _ _, .flag true => some (Exchange.IsMove id .reserved .preparing)
  | .claimLocal id _ _, .plan (some _) => some (Exchange.IsMove id .reserved .preparing)
  | _, _ => none

def Shows {α : Type} (evidence : α → Option (Exchange → Prop)) (_ : Set Empty)
    (outcome : Except CompletionError α) (area : Area) : Prop :=
  ∀ value, outcome = .ok value → ∀ holds ∈ evidence value, ∃ exchange ∈ area.log, holds exchange

abbrev Leaves {α : Type} (evidence : α → Option (Exchange → Prop)) (process : Op α)
    (held : Set Empty) (area : Area) : Prop :=
  wordDiscipline.Keeps (Shows evidence) (fun _ _ => True) process held area

section Evidence

variable {α : Type} {evidence : α → Option (Exchange → Prop)} {held : Set Empty} {area : Area}
  {id : Nat} {source target : GrantState} {process : Op α} {I : Set Empty → Area → Prop}
  {rest : Bool → Op α}

theorem shows_error (error : CompletionError) : Shows evidence held (.error error) area :=
  fun _ hvalue => by cases hvalue

theorem keeps_quiet (hall : process.All Access.Allowed) (hnone : ∀ value, evidence value = none) :
    Leaves evidence process held area := by
  have hkeeps : wordDiscipline.Keeps (fun _ _ _ => True) (fun _ _ => True) process held area :=
    Discipline.Keeps.of_all (P := fun _ => True) (fun _ _ _ h => h) hall (fun _ _ _ => trivial)
      trivial
  refine hkeeps.mono (fun _ _ _ _ value _ holds hholds => ?_) fun _ _ _ => trivial
  rw [hnone value] at hholds
  cases hholds

theorem keeps_of_mem (hall : process.All Access.Allowed) {exchange : Exchange}
    (hmem : exchange ∈ area.log) (hholds : ∀ value, ∀ holds ∈ evidence value, holds exchange) :
    Leaves evidence process held area := by
  have hkeeps : wordDiscipline.Keeps (fun _ _ area => exchange ∈ area.log)
      (fun _ area => exchange ∈ area.log) process held area :=
    Discipline.Keeps.of_all (P := fun area : Area => exchange ∈ area.log) (fun _ _ _ h => h) hall
      (fun access area => area.log_perform access exchange) hmem
  refine hkeeps.mono (fun _ _ _ hkept value _ holds hvalue => ?_) fun _ _ _ => trivial
  exact ⟨exchange, hkept, hholds value holds hvalue⟩

theorem mem_log_later {later : Area} (hlater : wordDiscipline.Later held area later)
    {exchange : Exchange} (hmem : exchange ∈ area.log) : exchange ∈ later.log := by
  apply hlater.stable (P := fun area => exchange ∈ area.log) ?_ hmem
  rintro s t ⟨others, access, -, -, -, rfl⟩ hmem
  exact Area.log_perform access s exchange hmem

theorem keeps_bind {β : Type} {first : Op β} {rest : β → Op α} (hs : wordDiscipline.Fits held area)
    (hall : first.All Access.Allowed)
    (hrest : ∀ value held area, wordDiscipline.Fits held area →
      Leaves evidence (rest value) held area) : Leaves evidence (first >>= rest) held area :=
  Discipline.Keeps.bind_of_all (fun _ _ _ h => h) hs hall hrest
    (fun error _ _ => shows_error error) fun _ _ => trivial

variable {note : Option RestoreResult}

theorem keeps_exchange {slot : Slot} {old new : Nat} (hallowed : Allowed slot old new)
    (hsuccess : ∀ held area, wordDiscipline.Fits held area → ∀ exchange ∈ area.log,
      exchange = ⟨slot, old, new, note⟩ →
      Leaves evidence (rest true) held area)
    (hfailure : ∀ held area, wordDiscipline.Fits held area →
      Leaves evidence (rest false) held area) :
    Leaves evidence (Op.exchange slot old new note >>= rest) held area := by
  intro t ht
  refine ⟨hallowed, ?_⟩
  have hpermitted : wordDiscipline.Permitted held (.exchange slot old new note) t := hallowed
  have hfits := ht.fits.act hpermitted
  rw [Access.perform] at hfits ⊢
  rcases Area.exchange_cases t slot old new note with ⟨-, hresult⟩ | ⟨-, hresult⟩
  · rw [hresult] at hfits ⊢
    exact hsuccess _ _ hfits _ (List.mem_append_right _ List.mem_cons_self) rfl
  · rw [hresult] at hfits ⊢
    exact hfailure _ _ hfits

theorem keeps_tryTransition
    (hmoves : source.moves target = true)
    (hsuccess : ∀ held area, wordDiscipline.Fits held area → Moved area.log id source target →
      Leaves evidence (rest true) held area)
    (hfailure : ∀ held area, wordDiscipline.Fits held area →
      Leaves evidence (rest false) held area) :
    Leaves evidence (tryTransition id source target note >>= rest) held area := by
  unfold tryTransition offset
  split
  case isTrue => exact fun t ht => shows_error _
  case isFalse hvalid =>
    refine keeps_exchange (.move (by omega) hmoves) (fun held area hfits exchange hmem heq => ?_)
      hfailure
    exact hsuccess held area hfits ⟨exchange, hmem, heq ▸ ⟨rfl, rfl⟩⟩

theorem keeps_admitted (hall : process.All Access.Allowed)
    (hmoved : Moved area.log id .reserved .preparing)
    (hevidence : ∀ value, ∀ holds ∈ evidence value,
      holds = Exchange.IsMove id .reserved .preparing) : Leaves evidence process held area := by
  obtain ⟨exchange, hmem, hmove⟩ := hmoved
  refine keeps_of_mem hall hmem fun value holds hholds => ?_
  rw [hevidence value holds hholds]
  exact hmove

theorem keeps_behind
    (hmoves : source.moves target = true) (hsource : source ≠ .reserved)
    (hall : ∀ success, (rest success).All Access.Allowed)
    (hevidence : ∀ value, ∀ holds ∈ evidence value, holds = Exchange.IsMove id .reserved .preparing)
    (hfailure : ∀ held area, wordDiscipline.Fits held area →
      Leaves evidence (rest false) held area) :
    Leaves evidence (tryTransition id source target note >>= rest) held area := by
  refine keeps_tryTransition hmoves (fun held area hfits hmoved => ?_) hfailure
  exact keeps_admitted (hall true) (hfits.1.admitted id source target hmoved hsource) hevidence

end Evidence

section Calls

variable {held : Set Empty} {area : Area} (hs : wordDiscipline.Fits held area)

include hs in
theorem keeps_cancel (id : Nat) :
    Leaves (fun value => (RestoreCall.cancel id).evidence (.flag value)) (cancel id) held area := by
  refine keeps_bind hs (all_state (fun _ => Access.Calm.allowed) id) fun current held area hfits => ?_
  cases current with
  | reserved =>
    refine keeps_tryTransition rfl (fun held area _ hmoved => ?_) fun held area _ => ?_
    · obtain ⟨exchange, hmem, hmove⟩ := hmoved
      refine keeps_of_mem trivial hmem fun value holds hholds => ?_
      cases value
      · cases hholds
      · exact Option.some.inj hholds ▸ hmove
    · exact fun _ _ => trivial
  | preparing =>
    refine keeps_tryTransition rfl (fun held area _ _ => ?_) fun held area _ => ?_
    · intro t ht value hvalue holds hholds
      cases hvalue
      cases hholds
    · exact fun _ _ => trivial
  | acknowledged => exact fun t ht => shows_error _
  | _ =>
    intro t ht value hvalue holds hholds
    cases hvalue
    cases hholds

theorem keeps_claim (id : Nat) :
    Leaves (fun _ : Unit => (RestoreCall.claim id).evidence .unit) (claim id) held area := by
  refine keeps_tryTransition rfl (fun held area _ hmoved => ?_) fun held area _ => ?_
  · exact keeps_admitted trivial hmoved fun _ holds hholds => (Option.some.inj hholds).symm
  · exact fun t ht => shows_error _

include hs in
theorem keeps_startManaged (id : Nat) :
    Leaves (fun _ : Unit => (RestoreCall.startManaged id).evidence .unit) (startManaged id) held
      area := by
  refine keeps_bind hs (all_state (fun _ => Access.Calm.allowed) id) fun current held area hfits => ?_
  split
  case isFalse => exact fun t ht => shows_error _
  case isTrue hsource =>
    refine keeps_behind ?_ ?_ (fun success => ?_) (fun _ holds hholds => ?_) fun held area _ => ?_
    · rcases hsource with rfl | rfl <;> rfl
    · rcases hsource with rfl | rfl <;> decide
    · cases success <;> trivial
    · exact (Option.some.inj hholds).symm
    · exact fun _ _ => trivial

include hs in
theorem keeps_publishLocal (id : Nat) (plan : List UInt8) (more : Bool) :
    Leaves (fun value => (RestoreCall.publishLocal id plan more).evidence (.flag value))
      (publishLocal id plan more) held area := by
  have hevidence : ∀ value, ∀ holds ∈ (RestoreCall.publishLocal id plan more).evidence (.flag value),
      holds = Exchange.IsMove id .reserved .preparing := by
    intro value holds hholds
    cases value
    · cases hholds
    · exact (Option.some.inj hholds).symm
  have hfalse : ∀ held area,
      Leaves (fun value => (RestoreCall.publishLocal id plan more).evidence (.flag value))
        (.done false) held area := by
    intro held area t ht value hvalue holds hholds
    cases hvalue
    cases hholds
  refine keeps_bind hs (all_state (fun _ => Access.Calm.allowed) id) fun current held area hs => ?_
  split
  · exact hfalse held area
  refine keeps_bind hs (all_state (fun _ => Access.Calm.allowed) id) fun current held area hs => ?_
  split
  · exact fun t ht => shows_error _
  split
  · exact fun t ht => shows_error _
  refine keeps_bind hs (all_perform trivial) fun placed held area hs => ?_
  cases placed with
  | error error => exact fun t ht => shows_error _
  | ok start =>
    refine keeps_bind hs (all_offset id) fun slot held area hs => ?_
    refine keeps_bind hs (all_perform trivial) fun _ held area hs => ?_
    refine keeps_bind hs (all_perform trivial) fun _ held area hs => ?_
    refine keeps_bind hs (all_perform trivial) fun _ held area hs => ?_
    refine keeps_behind ?_ (by decide) (fun success => ?_) hevidence fun held area hs => ?_
    · cases more <;> rfl
    · cases success
      · exact all_unpublish (fun _ => Access.Calm.allowed) (fun _ => Access.OfPlan.allowed) id
      · trivial
    · refine keeps_bind hs (all_state (fun _ => Access.Calm.allowed) id) fun current held area hs => ?_
      refine keeps_bind hs (all_perform trivial) fun _ held area hs => ?_
      split
      · exact hfalse held area
      · exact fun t ht => shows_error _

include hs in
theorem keeps_claimLocal (id : Nat) (fault drainFault : Option String) :
    Leaves (fun value => (RestoreCall.claimLocal id fault drainFault).evidence (.plan value))
      (claimLocal id fault drainFault) held area := by
  have hevidence : ∀ value,
      ∀ holds ∈ (RestoreCall.claimLocal id fault drainFault).evidence (.plan value),
      holds = Exchange.IsMove id .reserved .preparing := by
    intro value holds hholds
    cases value
    · cases hholds
    · exact (Option.some.inj hholds).symm
  have hrejected : ∀ (error : CompletionError) (source : GrantState),
      source = .active ∨ source = .activeMore → Moves Access.Allowed id source .drained
        (some (.error ("Restore plan rejected before execution: " ++ error.toString))) := by
    rintro error source (rfl | rfl) hpos
    all_goals exact Allowed.move hpos rfl
  -- the exchange of either state is followed by the same rest
  have hclaim : ∀ source target held area, source.moves target = true → source ≠ .reserved →
      Leaves (fun value => (RestoreCall.claimLocal id fault drainFault).evidence (.plan value))
        (claimFrom id source target fault drainFault) held area := by
    intro source target held area hmoves hsource
    rw [claimFrom_eq, transition, Process.bind_assoc]
    refine keeps_behind hmoves hsource (fun success => ?_) hevidence fun held area _ => ?_
    · cases success
      · trivial
      · exact all_claimRest (fun _ => Access.Calm.allowed) (fun _ _ => trivial) hrejected fault
          drainFault
    · exact fun t ht => shows_error _
  refine keeps_bind hs (all_state (fun _ => Access.Calm.allowed) id) fun current held area hs => ?_
  cases current with
  | granted => exact hclaim .granted .active held area rfl (by decide)
  | grantedMore => exact hclaim .grantedMore .activeMore held area rfl (by decide)
  | acknowledged => exact fun t ht => shows_error _
  | _ =>
    intro t ht value hvalue holds hholds
    cases hvalue
    cases hholds

include hs in
theorem keeps_reserveWithin (attempts : Nat) :
    Leaves (fun value => RestoreCall.reserve.evidence (.operation value)) (reserveWithin attempts)
      held area := by
  induction attempts generalizing held area with
  | zero => exact fun t ht => shows_error _
  | succ attempts ih =>
    refine keeps_bind hs (all_perform trivial) fun answer held area hs => ?_
    cases answer with
    | none => exact fun t ht => shows_error _
    | some id =>
      dsimp only [offset]
      split
      case isTrue => exact fun t ht => shows_error _
      case isFalse =>
        rw [Process.done_bind]
        refine keeps_bind hs (all_perform trivial) fun tag held area hs => ?_
        split
        case isFalse => exact ih hs
        case isTrue hfree =>
          refine keeps_exchange (.reserve hfree.1 hfree.2)
            (fun held area _ exchange hmem heq => ?_) fun held area hs => ih hs
          intro t ht value hvalue holds hholds
          cases hvalue
          refine ⟨exchange, mem_log_later ht hmem, ?_⟩
          rw [← Option.some.inj hholds, heq]
          exact ⟨rfl, rfl⟩

theorem keeps_map {α : Type} {f : α → RestoreReply} {evidence : RestoreReply → Option (Exchange → Prop)}
    {process : Op α} (hs : wordDiscipline.Fits held area)
    (hkeeps : Leaves (fun value => evidence (f value)) process held area) :
    Leaves evidence (f <$> process) held area := by
  refine Discipline.Keeps.map hs (hkeeps.mono ?_ fun _ _ h => h) ?_
  · intro held outcome t hshows reply hreply
    cases outcome with
    | error error => cases hreply
    | ok value =>
      cases hreply
      exact hshows value rfl
  · rintro held outcome t _ ⟨others, access, -, -, -, rfl⟩ hshows reply hreply holds hholds
    obtain ⟨exchange, hmem, hexchange⟩ := hshows reply hreply holds hholds
    exact ⟨exchange, Area.log_perform access t exchange hmem, hexchange⟩

include hs in
theorem keeps_body (call : RestoreCall) : Leaves call.evidence call.body held area := by
  cases call with
  | reserve => exact keeps_map hs (keeps_reserveWithin hs _)
  | cancel id => exact keeps_map hs (keeps_cancel hs id)
  | claimLocal id fault drainFault => exact keeps_map hs (keeps_claimLocal hs id fault drainFault)
  | claim id => exact keeps_map hs (keeps_claim id)
  | startManaged id => exact keeps_map hs (keeps_startManaged hs id)
  | publishLocal id plan more => exact keeps_map hs (keeps_publishLocal hs id plan more)
  | _ => exact keeps_quiet (allowed_body _) fun _ => rfl

end Calls

theorem disciplined_of_reachable {s : RestoreSystem} (hreach : restoreMachine.Reachable s) :
    ∃ held, Disciplined wordDiscipline (fun call => Shows call.evidence) (fun _ _ _ => True) s
      held := by
  apply hreach.invariant
    (I := fun s => ∃ held,
      Disciplined wordDiscipline (fun call => Shows call.evidence) (fun _ _ _ => True) s held)
  · rintro s rfl
    exact ⟨fun _ => ∅, Area.ordered_new, fun _ _ _ => Set.disjoint_empty _,
      fun _ cap => cap.elim, fun i thread hthread => by cases hthread⟩
  · rintro s step t ⟨held, hs⟩ hnext
    cases step with
    | start call =>
      obtain ⟨-, rfl⟩ := System.next_start hnext
      have hfits : wordDiscipline.Fits ∅ s.memory := ⟨hs.valid, fun cap => cap.elim⟩
      exact ⟨_, hs.start hfits (fun _ _ => Set.empty_disjoint _) (keeps_body hfits call)⟩
    | advance i =>
      exact hs.advance (fun call own area hfits _ => keeps_body hfits call) hnext

/-! ### Stale operations -/

section Stale

variable {area : Area} {id : Nat}

theorem run_state_stale (hstale : area.tags (slotOf id) / 16 ≠ id) :
    (state id).run area = (some (.error (.stale id)), area) := by
  unfold state offset
  split
  · rfl
  · rw [Process.done_bind, run_loadTag, if_pos hstale, run_fail]

theorem run_transition_stale (hstale : area.tags (slotOf id) / 16 ≠ id)
    (source target : GrantState) (note : Option RestoreResult) :
    (transition id source target note).run area = (some (.error (.stale id)), area) := by
  have hne : area.tags (slotOf id) ≠ tagOf id source := by
    intro heq
    rw [heq, tagOf_div] at hstale
    exact hstale rfl
  unfold transition tryTransition offset
  split
  · rfl
  · rw [Process.done_bind, run_exchange, Area.exchange, if_neg hne]
    rfl

theorem run_bind_stale {α β : Type} {op : Op α} {rest : α → Op β}
    (hstale : op.run area = (some (.error (.stale id)), area)) :
    (op >>= rest).run area = (some (.error (.stale id)), area) := by
  rw [run_bind, hstale]
  rfl

theorem run_body_stale (hstale : area.tags (slotOf id) / 16 ≠ id) {call : RestoreCall}
    (hcall : call.id? = some id) : call.body.run area = (some (.error (.stale id)), area) := by
  have hstate := run_state_stale hstale
  have hfirst : ∀ {α : Type} (rest : Slot → GrantState → Op α),
      (offset id >>= fun slot => state id >>= rest slot).run area =
        (some (.error (.stale id)), area) := by
    intro α rest
    unfold offset
    split
    · rfl
    · rw [Process.done_bind]
      exact run_bind_stale hstate
  cases call <;> cases hcall
  case claim => exact run_bind_stale (run_transition_stale hstale ..)
  case continueLocal => exact run_bind_stale (run_transition_stale hstale ..)
  case poll => exact run_bind_stale (hfirst _)
  case releasePlan => exact run_bind_stale (hfirst _)
  case state => exact run_bind_stale hstate
  all_goals exact run_bind_stale (run_bind_stale hstate)

end Stale

/-! ### Cancellation -/

def Area.Reused (area : Area) (id : Nat) : Prop :=
  ∃ later exchange, exchange ∈ area.log ∧ exchange.slot = slotOf id ∧
    exchange.new = tagOf later .reserved ∧ id < later

theorem Area.Ordered.stale_of_reused {area : Area} {id : Nat} (hordered : area.Ordered)
    (hreused : area.Reused id) : area.tags (slotOf id) / 16 ≠ id := by
  obtain ⟨later, exchange, hmem, hslot, hnew, hlater⟩ := hreused
  have hlatest := (hordered.latest exchange hmem).2
  rw [hslot, hnew, tagOf_div] at hlatest
  omega

structure RestoreSystem.CancelSafe (s : RestoreSystem) : Prop where
  /-- An operation that was cancelled is never admitted, managed, published or claimed. -/
  cancelled : ∀ id, (.cancel id, .ok (.flag true)) ∈ s.replies →
    (∀ reply, (.claim id, .ok reply) ∉ s.replies) ∧
    (∀ reply, (.startManaged id, .ok reply) ∉ s.replies) ∧
    (∀ plan more, (.publishLocal id plan more, .ok (.flag true)) ∉ s.replies) ∧
    ∀ fault drainFault bytes,
      (.claimLocal id fault drainFault, .ok (.plan (some bytes))) ∉ s.replies
  /-- Every reserved operation was given a slot that was free or acknowledged, and is larger than
  all operations that had the slot before. -/
  reserved : ∀ id, (.reserve, .ok (.operation id)) ∈ s.replies →
    ∃ before exchange after, s.memory.log = before ++ exchange :: after ∧
      exchange.slot = slotOf id ∧ exchange.new = tagOf id .reserved
  fresh : ∀ before exchange after id, s.memory.log = before ++ exchange :: after →
    exchange.new = tagOf id .reserved →
    (exchange.old = 0 ∨ exchange.old % 16 = GrantState.acknowledged.code) ∧
      ∀ earlier ∈ before, earlier.slot = exchange.slot → earlier.new / 16 < id
  /-- A call for an operation whose slot was reused fails and changes nothing. -/
  stale : ∀ id call, s.memory.Reused id → RestoreCall.id? call = some id →
    call.body.run s.memory = (some (.error (.stale id)), s.memory)

theorem evidence_of_reply {s : RestoreSystem} {held : Nat → Set Empty}
    (hs : Disciplined wordDiscipline (fun call => Shows call.evidence) (fun _ _ _ => True) s held)
    {call : RestoreCall} {reply : RestoreReply} (hreply : (call, .ok reply) ∈ s.replies) :
    ∀ holds ∈ call.evidence reply, ∃ exchange ∈ s.memory.log, holds exchange := by
  obtain ⟨thread, hthread, hprogress⟩ := List.mem_filterMap.mp hreply
  obtain ⟨i, hi⟩ := List.getElem?_of_mem hthread
  obtain ⟨call', progress⟩ := thread
  cases progress with
  | running process => cases hprogress
  | replied outcome =>
    obtain ⟨rfl, rfl⟩ := Prod.mk.inj (Option.some.inj hprogress)
    exact hs.replied hi reply rfl

/-- **Cancelled and stale restores.** In every interleaving of any calls: a cancelled operation has
no other success, a slot only passes on to larger operations, and a call for an operation it has
left fails. -/
theorem restore_cancel_safe {s : RestoreSystem} (hreach : restoreMachine.Reachable s) :
    s.CancelSafe := by
  obtain ⟨held, hs⟩ := disciplined_of_reachable hreach
  have hordered : s.memory.Ordered := hs.valid
  constructor
  case cancelled =>
    intro id hcancel
    have hcancelled := evidence_of_reply hs hcancel _ rfl
    -- every other success would have left the admission in the log
    have hnever : ¬Moved s.memory.log id .reserved .preparing := fun hadmitted =>
      hordered.once id hadmitted hcancelled
    refine ⟨fun reply hreply => ?_, fun reply hreply => ?_, fun plan more hreply => ?_,
      fun fault drainFault bytes hreply => ?_⟩
    all_goals exact hnever (evidence_of_reply hs hreply _ rfl)
  case reserved =>
    intro id hreply
    obtain ⟨exchange, hmem, hreservation⟩ := evidence_of_reply hs hreply _ rfl
    obtain ⟨before, after, hlog⟩ := List.append_of_mem hmem
    exact ⟨before, exchange, after, hlog, hreservation.1, hreservation.2⟩
  case fresh => exact hordered.reservations
  case stale =>
    intro id call hreused hcall
    exact run_body_stale (hordered.stale_of_reused hreused) hcall

theorem restore_isNew : RestoreSystem.IsNew ⟨Area.new, []⟩ :=
  rfl

/-- A cancellation and an admission of one operation, access by access. -/
def racingSteps : List (SystemStep RestoreCall) :=
  [.start .reserve, .advance 0, .advance 0, .advance 0, .advance 0, .start (.cancel 1),
    .start (.claim 1), .advance 1, .advance 1, .advance 2, .advance 1, .advance 2]

theorem restore_cancel_safe_racing :
    ∃ s : RestoreSystem, restoreMachine.Reachable s ∧
      (.cancel 1, .ok (.flag true)) ∈ s.replies ∧ (.claim 1, .error (.stale 1)) ∈ s.replies ∧
      s.CancelSafe := by
  have hrun : (racingSteps.foldlM (System.next RestoreCall.body Access.perform fun _ _ => true)
      (⟨Area.new, []⟩ : RestoreSystem)).any (fun s =>
        (.cancel 1, .ok (.flag true)) ∈ s.replies ∧
          (.claim 1, .error (.stale 1)) ∈ s.replies) = true := by
    decide +kernel
  obtain ⟨s, hreach, hcancel, hclaim⟩ := restoreMachine.exists_reachable rfl restore_isNew hrun
  exact ⟨s, hreach, hcancel, hclaim, restore_cancel_safe hreach⟩

end OrbitKV
