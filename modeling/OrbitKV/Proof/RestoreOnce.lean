import OrbitKV.Proof.RestoreResults

/-!
# Exactly one restore result

A poll that returns a result has made the acknowledgement itself.
-/

namespace OrbitKV

open Std SessionCall List Function

open RestoreCompletions

/-! ### Whole sessions -/

def SessionCall.Terminal (id : Nat) (call : SessionCall)
    (outcome : Except CompletionError RestoreReply) (response : RestoreResponse) : Prop :=
  call = .single (.poll id) ∧ outcome = .ok (.response response) ∧ response.state ≠ .pending

def SessionCall.Promise (call : SessionCall) (held : Set RestoreCap)
    (outcome : Except CompletionError RestoreReply) (area : Area) : Prop :=
  ∀ id response, call.Terminal id outcome response →
    .acked id ∈ held ∧ ∃ result, finishes area.log id = [result] ∧ Reports id result response

def SessionCall.Holds (call : SessionCall) (held : Set RestoreCap) : Prop :=
  ∀ id, call.managed? = some id → .manage id ∈ held

section Sessions

variable {held kept : Set RestoreCap} {area : Area} {call : SessionCall}
  {outcome : Except CompletionError RestoreReply}

theorem SessionCall.Promise.of_ne (hne : ∀ id, call ≠ .single (.poll id)) :
    call.Promise held outcome area :=
  fun id _ hterminal => absurd hterminal.1 (hne id)

theorem SessionCall.Promise.mono (hpromise : call.Promise held outcome area)
    (hkept : ∀ id, .acked id ∈ held → .acked id ∈ kept) : call.Promise kept outcome area := by
  intro id response hterminal
  obtain ⟨hacked, hreports⟩ := hpromise id response hterminal
  exact ⟨hkept id hacked, hreports⟩

theorem stable_promise : resultDiscipline.Stable held fun area => call.Promise held outcome area := by
  intro area area' hstep hpromise id response hterminal
  obtain ⟨hacked, result, hfinishes, hreports⟩ := hpromise id response hterminal
  exact ⟨hacked, result, stable_finishes _ _ hstep hfinishes, hreports⟩

theorem keeps_session (hs : resultDiscipline.Fits held area) (hheld : call.Holds held)
    (hlone : call.isLone = false) :
    resultDiscipline.Keeps call.Promise (fun held _ => call.Holds held) call.body held area := by
  have htrue : (∀ id, call ≠ .single (.poll id)) →
      resultDiscipline.Keeps (fun _ _ _ => True) (fun held _ => call.Holds held) call.body held
        area → resultDiscipline.Keeps call.Promise (fun held _ => call.Holds held) call.body held
        area :=
    fun hne hkeeps => hkeeps.mono (fun _ _ _ _ => .of_ne hne) fun _ _ h => h
  cases call with
  | execute id fault drainFault result timing doneFault =>
    exact htrue nofun (keeps_execute hs (fun _ _ _ h => by cases h) _ _ _ _ _)
  | single call =>
    cases hstatic : call.isStatic with
    | true =>
      refine htrue ?_ (keeps_static hstatic hheld fun _ => hheld)
      rintro id ⟨⟩
      cases hstatic
    | false =>
      cases call with
      | claimLocal => cases hlone
      | drained => cases hlone
      | reap id fault =>
        exact htrue nofun (keeps_map_true hs (keeps_reap (hheld id rfl) (fun _ => hheld) fault))
      | reject id message fault =>
        exact htrue nofun
          (keeps_map_true hs (keeps_reject (hheld id rfl) (fun _ => hheld) message fault))
      | complete id result =>
        exact htrue nofun (keeps_map_true hs (keeps_complete (hheld id rfl) result))
      | poll id =>
        refine Discipline.Keeps.map hs ((keeps_poll id).mono ?_ fun _ _ h => h) ?_
        · rintro held outcome t hpromise other response ⟨hcall, houtcome, hpending⟩
          cases hcall
          cases outcome with
          | error error => cases houtcome
          | ok value =>
            cases houtcome
            exact hpromise response rfl hpending
        · exact fun held outcome _ _ hstep hpromise => stable_promise _ _ hstep hpromise
      | _ => cases hstatic

def keptCaps (held : Set RestoreCap) : Set RestoreCap :=
  {cap ∈ held | ∀ id, cap ≠ .manage id}

theorem manage_mem_capsAfter {access : Access} {answer : access.Answer} {id : Nat}
    (hmem : .manage id ∈ capsAfter held access answer) : .manage id ∈ held := by
  cases access with
  | exchange slot old new note =>
    cases answer with
    | false => exact hmem
    | true =>
      simp only [capsAfter] at hmem
      split at hmem
      · rcases GrantState.mem_passes hmem with hmem | ⟨heq, -⟩ | ⟨heq, -⟩
        · exact hmem
        · cases heq
        · cases heq
      · exact hmem
  | _ => exact hmem

structure SessionSystem.Sound (s : SessionSystem) (held : Nat → Set RestoreCap) : Prop where
  disciplined : Disciplined resultDiscipline Promise (fun call held _ => call.Holds held) s held
  owners : ∀ i id, .manage id ∈ held i → ∃ call process,
    s.threads[i]? = some ⟨call, .running process⟩ ∧ call.managed? = some id
  paired : ∀ (i : Nat) call progress, s.threads[i]? = some ⟨call, progress⟩ → call.isLone = false

variable {s t : SessionSystem} {heldBy : Nat → Set RestoreCap}

theorem not_owned_of_idle (hs : s.Sound heldBy) {id : Nat} (hidle : s.isBusy id = false) (i : Nat) :
    .manage id ∉ heldBy i := by
  intro hmem
  obtain ⟨call, process, hthread, hmanaged⟩ := hs.owners i id hmem
  have hbusy : s.isBusy id = true := by
    refine List.any_eq_true.mpr ⟨_, mem_of_getElem? hthread, ?_⟩
    simpa using hmanaged
  rw [hidle] at hbusy
  cases hbusy

def SessionCall.ownCaps (call : SessionCall) : Set RestoreCap :=
  {cap | ∃ id, call.managed? = some id ∧ cap = .manage id}

theorem SessionSystem.Sound.start (hs : s.Sound heldBy)
    (hnext : s.next body Access.perform SessionSystem.mayStart (.start call) = some t) :
    ∃ heldBy, t.Sound heldBy := by
  obtain ⟨hmay, rfl⟩ := System.next_start hnext
  obtain ⟨hlone, hidle⟩ := (Bool.and_eq_true_iff).mp hmay
  have hlone : call.isLone = false := by simpa using hlone
  have hfits : resultDiscipline.Fits call.ownCaps s.memory := by
    refine ⟨hs.disciplined.valid, ?_⟩
    rintro _ ⟨id, -, rfl⟩
    trivial
  have hfree : ∀ i, i ≠ s.threads.length → Disjoint call.ownCaps (heldBy i) := by
    intro i _
    rw [Set.disjoint_left]
    rintro _ ⟨id, hmanaged, rfl⟩
    rw [hmanaged] at hidle
    exact not_owned_of_idle hs (by simpa using hidle) i
  have hkeeps := keeps_session hfits (fun id hmanaged => ⟨id, hmanaged, rfl⟩) hlone
  refine ⟨_, hs.disciplined.start hfits hfree hkeeps, fun i id hmem => ?_, fun i other progress => ?_⟩
  · by_cases hi : i = s.threads.length
    · subst hi
      rw [update_self] at hmem
      obtain ⟨other, hmanaged, heq⟩ := hmem
      obtain rfl := RestoreCap.manage.inj heq
      exact ⟨call, call.body, getElem?_concat_length, hmanaged⟩
    · rw [update_of_ne hi] at hmem
      obtain ⟨other, process, hthread, hmanaged⟩ := hs.owners i id hmem
      have hlt := (List.getElem?_eq_some_iff.mp hthread).1
      exact ⟨other, process, (getElem?_append_left hlt).trans hthread, hmanaged⟩
  · intro hthread
    rcases List.mem_append.mp (mem_of_getElem? hthread) with hold | hnew
    · obtain ⟨j, hj⟩ := getElem?_of_mem hold
      exact hs.paired j other progress hj
    · obtain ⟨rfl, -⟩ := Thread.mk.inj (List.mem_singleton.mp hnew)
      exact hlone

theorem SessionSystem.Sound.reply (hs : s.Sound heldBy) {i : Nat} {progress}
    (hthread : s.threads[i]? = some ⟨call, progress⟩)
    (hpromise : call.Promise (heldBy i) outcome s.memory) :
    ∃ heldBy, SessionSystem.Sound ⟨s.memory, s.threads.set i ⟨call, .replied outcome⟩⟩ heldBy := by
  have hreply : ∀ t, resultDiscipline.Later (keptCaps (heldBy i)) s.memory t →
      call.Promise (keptCaps (heldBy i)) outcome t := by
    intro t hlater
    refine hlater.stable (stable_promise _ _) (hpromise.mono fun id hmem => ⟨hmem, nofun⟩)
  refine ⟨_, hs.disciplined.reply (Set.sep_subset _ _) hreply, fun j id hmem => ?_,
    fun j other progress hother => ?_⟩
  · by_cases hj : j = i
    · rw [hj, update_self] at hmem
      exact absurd rfl (hmem.2 id)
    · rw [update_of_ne hj] at hmem
      obtain ⟨other, process, hother, hmanaged⟩ := hs.owners j id hmem
      exact ⟨other, process, (getElem?_set_ne (Ne.symm hj)).trans hother, hmanaged⟩
  · rcases getElem?_set_cases hother with ⟨rfl, heq⟩ | ⟨-, hother⟩
    · obtain ⟨rfl, -⟩ := Thread.mk.inj heq
      exact hs.paired i call _ hthread
    · exact hs.paired j other progress hother

theorem SessionSystem.Sound.running (hs : s.Sound heldBy) {i : Nat} {process next : Op RestoreReply}
    {m : Area} {own : Set RestoreCap} (hthread : s.threads[i]? = some ⟨call, .running process⟩)
    (hdisciplined : Disciplined resultDiscipline Promise
      (fun call held _ => call.Holds held) ⟨m, s.threads.set i ⟨call, .running next⟩⟩
      (update heldBy i own))
    (hown : ∀ id, .manage id ∈ own → .manage id ∈ heldBy i) :
    ∃ heldBy, SessionSystem.Sound ⟨m, s.threads.set i ⟨call, .running next⟩⟩ heldBy := by
  refine ⟨_, hdisciplined, fun j id hmem => ?_, fun j other progress hother => ?_⟩
  · have hmem : .manage id ∈ heldBy j := by
      by_cases hj : j = i
      · rw [hj, update_self] at hmem
        exact hj ▸ hown id hmem
      · rwa [update_of_ne hj] at hmem
    obtain ⟨other, rest, hother, hmanaged⟩ := hs.owners j id hmem
    by_cases hj : j = i
    · subst hj
      rw [hthread] at hother
      obtain ⟨rfl, -⟩ := Thread.mk.inj (Option.some.inj hother)
      have hlt := (List.getElem?_eq_some_iff.mp hthread).1
      exact ⟨call, next, getElem?_set_self hlt, hmanaged⟩
    · exact ⟨other, rest, (getElem?_set_ne (Ne.symm hj)).trans hother, hmanaged⟩
  · rcases getElem?_set_cases hother with ⟨rfl, heq⟩ | ⟨-, hother⟩
    · obtain ⟨rfl, -⟩ := Thread.mk.inj heq
      exact hs.paired i call _ hthread
    · exact hs.paired j other progress hother

theorem SessionSystem.Sound.advance (hs : s.Sound heldBy) {i : Nat}
    (hnext : s.next body Access.perform SessionSystem.mayStart (.advance i) = some t) :
    ∃ heldBy, t.Sound heldBy := by
  obtain ⟨call, process, hthread, rfl⟩ := System.next_advance hnext
  have hkeeps := hs.disciplined.keeps i _ hthread
  have hfits := hs.disciplined.fits i
  cases process with
  | done value => exact hs.reply hthread (hkeeps _ hfits.later)
  | fail error => exact hs.reply hthread (hkeeps _ hfits.later)
  | again =>
    have hheld : call.Holds (heldBy i) := hkeeps _ hfits.later
    have hbody := keeps_session hfits hheld (hs.paired i call _ hthread)
    have hdisciplined : Disciplined resultDiscipline Promise
        (fun call held _ => call.Holds held)
        ⟨s.memory, s.threads.set i ⟨call, .running call.body⟩⟩ heldBy :=
      hs.disciplined.proceed hbody
    rw [← update_eq_self i heldBy] at hdisciplined
    exact hs.running hthread hdisciplined fun _ h => h
  | act access next =>
    obtain ⟨hpermitted, hrest⟩ := hkeeps _ hfits.later
    exact hs.running hthread (hs.disciplined.act hpermitted hrest) fun _ => manage_mem_capsAfter

/-! ### Where results come from -/

def SessionCall.Offers (id : Nat) (result : RestoreResult) : SessionCall → Prop
  | .single call => call.id? = some id ∧ call.offers result
  | .execute other fault drainFault own timing doneFault => other = id ∧
      ((RestoreCall.claimLocal id fault drainFault).offers result ∨
        (RestoreCall.drained id own timing doneFault).offers result)

def SessionCall.Does : SessionCall → Access → Prop
  | .single call, access => call.Does access
  | .execute id fault drainFault result timing doneFault, access =>
    (RestoreCall.claimLocal id fault drainFault).Does access ∨
      (RestoreCall.drained id result timing doneFault).Does access

theorem session_does_body (call : SessionCall) : call.body.All call.Does := by
  cases call with
  | single call => exact does_body call
  | execute id fault drainFault result timing doneFault =>
    have hclaim := (does_body (.claimLocal id fault drainFault)).of_bind
    have hdrain := does_body (.drained id result timing doneFault)
    refine (hclaim.mono fun _ => .inl).bind fun plan => ?_
    cases plan with
    | none => trivial
    | some plan => exact hdrain.mono fun _ => .inr

theorem RestoreCall.Does.offers {call : RestoreCall} {slot : Slot} {old new : Nat}
    {note : Option RestoreResult} (hdoes : call.Does (.exchange slot old new note)) :
    ∀ result ∈ note, call.id? = some (new / 16) ∧ call.offers result := by
  intro result hresult
  cases hdoes with
  | calm hcalm => exact hcalm.elim
  | plan _ hplan => exact hplan.elim
  | reserve => cases hresult
  | move hpos hid _ hnote =>
    rw [tagOf_div]
    exact ⟨hid, hnote result hresult⟩

theorem SessionCall.Does.offers {slot : Slot} {old new : Nat} {note : Option RestoreResult}
    (hdoes : call.Does (.exchange slot old new note)) :
    ∀ result ∈ note, call.Offers (new / 16) result := by
  intro result hresult
  cases call with
  | single call => exact RestoreCall.Does.offers hdoes result hresult
  | execute id fault drainFault own timing doneFault =>
    rcases hdoes with hdoes | hdoes
    · obtain ⟨hid, hoffers⟩ := RestoreCall.Does.offers hdoes result hresult
      cases hid
      exact ⟨rfl, .inl hoffers⟩
    · obtain ⟨hid, hoffers⟩ := RestoreCall.Does.offers hdoes result hresult
      cases hid
      exact ⟨rfl, .inr hoffers⟩

def SessionSystem.Offered (s : SessionSystem) : Prop :=
  ∀ exchange ∈ s.memory.log, ∀ result ∈ exchange.note, ∃ thread ∈ s.threads,
    thread.call.Offers (exchange.new / 16) result

theorem SessionSystem.Offered.next (hs : s.Offered) (hall : s.AllRunning Does)
    {step : SystemStep SessionCall}
    (hnext : s.next body Access.perform SessionSystem.mayStart step = some t) :
    t.Offered := by
  cases step with
  | start call =>
    obtain ⟨-, rfl⟩ := System.next_start hnext
    intro exchange hexchange result hresult
    obtain ⟨thread, hthread, hoffers⟩ := hs exchange hexchange result hresult
    exact ⟨thread, mem_append_left _ hthread, hoffers⟩
  | advance i =>
    obtain ⟨call, process, hthread, rfl⟩ := System.next_advance hnext
    -- the calls stay the same
    have hkept : ∀ progress, ∀ thread ∈ s.threads,
        ∃ thread' ∈ s.threads.set i ⟨call, progress⟩, thread'.call = thread.call := by
      intro progress thread hmem
      obtain ⟨j, hj⟩ := getElem?_of_mem hmem
      by_cases hij : i = j
      · subst hij
        rw [hthread] at hj
        cases hj
        have hlt := (List.getElem?_eq_some_iff.mp hthread).1
        exact ⟨_, mem_of_getElem? (getElem?_set_self hlt), rfl⟩
      · exact ⟨thread, mem_of_getElem? ((getElem?_set_ne hij).trans hj), rfl⟩
    have hold : ∀ progress, ∀ exchange ∈ s.memory.log, ∀ result ∈ exchange.note,
        ∃ thread ∈ s.threads.set i ⟨call, progress⟩,
          thread.call.Offers (exchange.new / 16) result := by
      intro progress exchange hexchange result hresult
      obtain ⟨thread, hmem, hoffers⟩ := hs exchange hexchange result hresult
      obtain ⟨thread', hmem', hcall⟩ := hkept progress thread hmem
      exact ⟨thread', hmem', hcall ▸ hoffers⟩
    cases process with
    | done value => exact hold _
    | fail error => exact hold _
    | again => exact hold _
    | act access next =>
      have hdoes := (hall i call _ hthread).1
      intro exchange hexchange result hresult
      rcases Area.mem_log_perform hexchange with hexchange | rfl
      · exact hold _ exchange hexchange result hresult
      · have hlt := (List.getElem?_eq_some_iff.mp hthread).1
        refine ⟨_, mem_of_getElem? (getElem?_set_self hlt), ?_⟩
        exact SessionCall.Does.offers hdoes result hresult

structure SessionSystem.ResultsOnce (s : SessionSystem) : Prop where
  /-- At most one call has returned a result for an operation. -/
  once : ∀ (id i j : Nat) call outcome response call' outcome' response',
    s.threads[i]? = some ⟨call, .replied outcome⟩ → call.Terminal id outcome response →
    s.threads[j]? = some ⟨call', .replied outcome'⟩ → call'.Terminal id outcome' response' → i = j
  /-- It is the only result that was made final for the operation, and a call has offered it. -/
  reported : ∀ (id i : Nat) call outcome response,
    s.threads[i]? = some ⟨call, .replied outcome⟩ → call.Terminal id outcome response →
    ∃ result, finishes s.memory.log id = [result] ∧ Reports id result response ∧
      ∃ thread ∈ s.threads, thread.call.Offers id result

theorem sound_of_reachable (hreach : sessionMachine.Reachable s) :
    (∃ heldBy, s.Sound heldBy) ∧ s.AllRunning Does ∧ s.Offered := by
  apply hreach.invariant (I := fun s => (∃ heldBy, s.Sound heldBy) ∧ s.AllRunning Does ∧ s.Offered)
  · rintro s rfl
    refine ⟨⟨fun _ => ∅, ⟨Area.accounted_new, ?_, ?_, ?_⟩, ?_, ?_⟩, ?_, ?_⟩
    · exact fun _ _ _ => Set.disjoint_empty _
    · exact fun _ _ hcap => absurd hcap (Set.notMem_empty _)
    · exact fun _ _ hthread => by cases hthread
    · exact fun _ _ hcap => absurd hcap (Set.notMem_empty _)
    · exact fun _ _ _ hthread => by cases hthread
    · exact fun _ _ _ hthread => by cases hthread
    · exact fun _ hexchange => by cases hexchange
  · rintro s step t ⟨⟨heldBy, hs⟩, hall, hoffered⟩ hnext
    refine ⟨?_, hall.next session_does_body hnext, hoffered.next hall hnext⟩
    cases step with
    | start call => exact hs.start hnext
    | advance i => exact hs.advance hnext

/-- **Exactly one result.** In every interleaving of the calls of a session, at most one poll of an
operation returns a result. It is the one result that was made final for the operation, offered by
the call that made it so, and its message is cut at the last character boundary that fits. -/
theorem restore_result_once (hreach : sessionMachine.Reachable s) : s.ResultsOnce := by
  obtain ⟨⟨heldBy, hs⟩, -, hoffered⟩ := sound_of_reachable hreach
  constructor
  case once =>
    intro id i j call outcome response call' outcome' response' hi hterminal hj hterminal'
    have hacked := (hs.disciplined.replied hi id response hterminal).1
    have hacked' := (hs.disciplined.replied hj id response' hterminal').1
    by_contra hij
    exact Set.disjoint_left.mp (hs.disciplined.exclusive i j hij) hacked hacked'
  case reported =>
    intro id i call outcome response hi hterminal
    obtain ⟨-, result, hfinishes, hreports⟩ := hs.disciplined.replied hi id response hterminal
    refine ⟨result, hfinishes, hreports, ?_⟩
    -- the result is the note of an exchange
    have hmem : result ∈ finishes s.memory.log id := by
      rw [hfinishes]
      exact mem_singleton_self result
    obtain ⟨exchange, hexchange, hnote⟩ := List.mem_filterMap.mp hmem
    split at hnote
    case isTrue hid =>
      rw [← hid]
      exact hoffered exchange hexchange result hnote
    case isFalse => cases hnote

def longMessage : String :=
  String.ofList (List.replicate 87 'a') ++ "é"

/-- An operation that is rejected with a long message, and two polls that both see it reaped. -/
def racingPolls : List (SystemStep SessionCall) :=
  [.start (.single .reserve), .advance 0, .advance 0, .advance 0, .advance 0,
    .start (.single (.claim 1)), .advance 1, .advance 1,
    .start (.single (.reject 1 longMessage none)), .advance 2, .advance 2, .advance 2, .advance 2,
    .start (.single (.poll 1)), .start (.single (.poll 1)), .advance 3, .advance 4, .advance 3,
    .advance 4, .advance 3, .advance 4, .advance 4, .advance 3, .advance 3, .advance 4]

theorem restore_result_once_racing :
    ∃ s : SessionSystem, sessionMachine.Reachable s ∧
      (.single (.poll 1), .error (.stale 1)) ∈ s.replies ∧
      (.single (.poll 1), .ok (.response
        ⟨1, .failed, String.ofList (List.replicate 87 'a')⟩)) ∈ s.replies ∧ s.ResultsOnce := by
  have hrun : (racingPolls.foldlM
      (System.next body Access.perform SessionSystem.mayStart)
      (⟨Area.new, []⟩ : SessionSystem)).any (fun s =>
        (.single (.poll 1), .error (.stale 1)) ∈ s.replies ∧
          (.single (.poll 1), .ok (.response
            ⟨1, .failed, String.ofList (List.replicate 87 'a')⟩)) ∈ s.replies) = true := by
    decide +kernel
  obtain ⟨s, hreach, hstale, hfailed⟩ := sessionMachine.exists_reachable rfl rfl hrun
  exact ⟨s, hreach, hstale, hfailed, restore_result_once hreach⟩

end Sessions

end OrbitKV
