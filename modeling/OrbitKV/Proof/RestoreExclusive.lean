import OrbitKV.Proof.PlanBank
import OrbitKV.Proof.RestoreSources

/-!
# Exclusive restore grants

A plan that was claimed stays active until the engine reports its drain, and sources are given back
only when no claim can reach the part that they back.
-/

namespace OrbitKV

open Std RestoreCompletions ManagerCall ManagerSystem Function
open Discipline (stable_true)

section Engine

variable {α : Type} {held : Set ManagerCap} {m : Manager} {id : Nat} {access : Access}
  {I : Set ManagerCap → Manager → Prop}

theorem RestoreCall.engine_moves {call : RestoreCall} {source target : GrantState}
    (hcall : (∃ fault drainFault, call = .claimLocal id fault drainFault) ∨
      ∃ result timing fault, call = .drained id result timing fault)
    (hmoves : call.moves source target = true) : target.isGranted = false := by
  rcases hcall with ⟨fault, drainFault, rfl⟩ | ⟨result, timing, fault, rfl⟩
  all_goals
    unfold RestoreCall.moves at hmoves
    split at hmoves
    all_goals first | rfl | contradiction

theorem keeps_drainedOver {result : RestoreResult} {timing : Option RestoreTiming}
    {fault : Option String} {Q : ManagerPost (Except CompletionError α)}
    {op : Op α} (hall : op.All (RestoreCall.drained id result timing fault).Does)
    (hcap : .engine id ∈ held) (hm : m.claimed id = false)
    (hQ : ∀ outcome t, Backs held t → Q held outcome t)
    (hI : ∀ t, t.claimed id = false → I held t) : KeepsOver Q I none op held m := by
  have hadmitted : ∀ access t, (RestoreCall.drained id result timing fault).Does access →
      t.claimed id = false → Admitted held t none access := by
    intro access t hdoes ht
    refine hdoes.admitted (fun _ => rfl) fun other source target note hother hmoves => ?_
    obtain rfl : id = other := Option.some.inj hother
    exact .move rfl (RestoreCall.moves_diagram hmoves)
      (RestoreCall.engine_moves (.inr ⟨result, timing, fault, rfl⟩) hmoves) fun _ => ⟨hcap, ht⟩
  refine keeps_over hall (stable_claimed hcap false) (fun access t hdoes _ ht =>
    hadmitted access t hdoes ht) (fun access t hdoes _ ht => ?_) hm
    (fun outcome t hfits _ => hQ outcome t hfits) fun t _ ht => hI t ht
  have hframe := (hadmitted access t hdoes ht).altered.frame
  rw [hframe.2.2.2]
  exact ht

theorem passive_readPlan (id : Nat) (fault : Option String) :
    (readPlan id fault).All Access.Passive :=
  all_readPlan (fun _ hcalm => ⟨.reserve, rfl, .calm hcalm⟩) id fault

theorem keeps_claimRestOver {fault drainFault : Option String}
    {Q : ManagerPost (Except CompletionError (Option (List UInt8)))}
    (hcap : .engine id ∈ held) (hfits : Backs held m) (hactive : m.area.Active id)
    (hclaimed : m.claimed id = false)
    (hQ : ∀ outcome t, Backs held t →
      (∀ bytes, outcome = .ok (some bytes) → t.area.Active id) → Q held outcome t)
    (hI : ∀ t, I held t) : KeepsOver Q I none (claimRest id fault drainFault) held m := by
  have hstable : grantDiscipline.Stable held fun m => m.area.Active id ∧ m.claimed id = false :=
    fun s t hstep hs => ⟨stable_active hcap s t hstep hs.1, stable_claimed hcap false s t hstep hs.2⟩
  unfold claimRest
  rw [KeepsOver, over_bind]
  refine Discipline.Keeps.bind hfits (keeps_passive (passive_readPlan id fault) hstable
    ⟨hactive, hclaimed⟩ (fun outcome t ht hPt => ?_) fun t _ _ => hI t)
  cases outcome with
  | error error => exact hQ _ t ht fun bytes hok => by cases hok
  | ok plan =>
    cases plan with
    | ok plan =>
      intro u hu
      exact hQ _ u hu.fits fun _ _ => (hu.stable (hstable _ _) hPt).1
    | error error =>
      have hfail : ∀ u, grantDiscipline.Keeps Q I (.fail error) held u := fun u v hv =>
        hQ _ v hv.fits fun bytes hok => by cases hok
      have hall := Process.All.of_bind (does_body (.drained id
        (.error ("Restore plan rejected before execution: " ++ error.toString)) none drainFault))
      change KeepsOver Q I none (drained id
        (.error ("Restore plan rejected before execution: " ++ error.toString)) none drainFault
          >>= fun _ => .fail error) held t
      rw [KeepsOver, over_bind]
      refine Discipline.Keeps.bind ht
        (keeps_drainedOver hall hcap hPt.2 (fun outcome u hu => ?_) fun u _ => hI u)
      cases outcome with
      | ok value => exact hfail u
      | error error => exact hQ _ u hu fun bytes hok => by cases hok

section Claim

variable {fault drainFault : Option String}
  {Q : ManagerPost (Except CompletionError (Option (List UInt8)))}
  (hcap : .engine id ∈ held)
  (hQ : ∀ outcome t, Backs held t →
    (∀ bytes, outcome = .ok (some bytes) → t.area.Active id) → Q held outcome t)
  (hI : ∀ t, I held t)

include hcap hQ hI

theorem keeps_claimFromOver {source target : GrantState} (hsource : source.isGranted = true)
    (htarget : target.isActive = true) (hmoves : source.moves target = true) :
    KeepsOver Q I none (claimFrom id source target fault drainFault) held m := by
  have hinactive : source.isActive = false := by
    cases source <;> first | rfl | exact absurd hsource (by decide)
  have hfail : ∀ error t, Backs held t → Q held (.error error) t :=
    fun error t ht => hQ _ t ht fun bytes hok => by cases hok
  rw [claimFrom_eq, transition, Process.bind_assoc]
  refine keeps_over_exchange stable_true trivial (fun t _ _ => ?_)
    (fun t ht _ hold t' ht' _ htag hsame => ?_) (fun t _ _ u hu => hfail _ u hu.fits)
    fun error t ht _ => hfail error t ht
  · refine .move rfl hmoves ?_ fun hactive => ?_
    · cases target <;> first | rfl | exact absurd htarget (by decide)
    · rw [hinactive] at hactive
      cases hactive
  · refine keeps_claimRestOver hcap ht' ⟨target, htarget, htag⟩ ?_ hQ hI
    rw [hsame]
    -- a plan that was handed out is active, and this one was not
    by_contra hclaimed
    obtain ⟨state, hactive, htag⟩ := ht.1.claimed id (by simpa using hclaimed)
    obtain ⟨-, rfl⟩ := tagOf_inj.mp (hold.symm.trans htag)
    rw [hinactive] at hactive
    cases hactive

theorem keeps_claimLocalOver : KeepsOver Q I none (claimLocal id fault drainFault) held m := by
  have hfail : ∀ error t, Backs held t → Q held (.error error) t :=
    fun error t ht => hQ _ t ht fun bytes hok => by cases hok
  unfold claimLocal
  refine keeps_over_state stable_true trivial (fun t found ht _ _ => ?_)
    fun error t ht _ => hfail error t ht
  cases found with
  | granted => exact keeps_claimFromOver hcap hQ hI rfl rfl rfl
  | grantedMore => exact keeps_claimFromOver hcap hQ hI rfl rfl rfl
  | acknowledged => exact fun u hu => hfail _ u hu.fits
  | _ => exact fun u hu => hQ _ u hu.fits fun bytes hok => by cases hok

end Claim

end Engine

/-! ### Calls -/

namespace ManagerCall

def isDrain : ManagerCall → Bool
  | .single (.drained ..) => true
  | _ => false

def ownCaps (call : ManagerCall) : Set ManagerCap :=
  {cap | ∃ id, call.engine? = some id ∧ (cap = .engine id ∨ cap = .report id ∧ call.isDrain = true)}

def Promise (call : ManagerCall) (held : Set ManagerCap)
    (outcome : Except Unit (Except CompletionError RestoreReply)) (m : Manager) : Prop :=
  ∀ id fault drainFault bytes, call = .single (.claimLocal id fault drainFault) →
    outcome = .ok (.ok (.plan (some bytes))) → .engine id ∈ held → m.claimed id = true

end ManagerCall

section Calls

variable {held : Set ManagerCap} {m : Manager} {call : ManagerCall}
  {outcome : Except Unit (Except CompletionError RestoreReply)}

theorem ManagerCall.Promise.of_ne
    (hne : ∀ id fault drainFault, call ≠ .single (.claimLocal id fault drainFault)) :
    call.Promise held outcome m :=
  fun id fault drainFault _ hcall => absurd hcall (hne id fault drainFault)

theorem keeps_of_goes {Q : ManagerPost (Except CompletionError RestoreReply)}
    {op : ManagerOp (Except CompletionError RestoreReply)} (hgoes : Goes Q op held m)
    (hpromise : ∀ held value t, Q held value t → call.Promise held (.ok value) t) :
    grantDiscipline.Keeps call.Promise (fun _ _ => False) op held m := by
  refine Discipline.Keeps.mono hgoes ?_ fun _ _ h => h
  intro held outcome t hQ
  cases outcome with
  | ok value => exact hpromise held value t (hQ value rfl)
  | error error =>
    intro id fault drainFault bytes hcall hok
    cases hok

theorem goes_claimLocal {id : Nat} {fault drainFault : Option String}
    (hcap : .engine id ∈ held) (hfits : Backs held m) :
    Goes (fun _ value t => ∀ bytes, value = .ok (.plan (some bytes)) → t.claimed id = true)
      (singleBody (.claimLocal id fault drainFault)) held m := by
  refine Goes.bind hfits (goes_method stable_true trivial fun _ t ht _ => ?_)
  refine keeps_claimLocalOver hcap (fun outcome u hu hactive => ?_) fun _ => ⟨rfl, trivial⟩
  cases outcome with
  | error error => exact goes_done stable_true trivial fun _ _ _ bytes hok => by cases hok
  | ok plan =>
    cases plan with
    | none => exact goes_done stable_true trivial fun _ _ _ bytes hok => by cases hok
    | some plan =>
      refine goes_act (stable_active hcap) (hactive plan rfl) fun v hv hactive =>
        ⟨⟨hcap, hactive⟩, ?_⟩
      exact goes_done (stable_claimed hcap true) (update_self ..) fun _ _ hclaimed _ _ =>
        hclaimed

theorem goes_drained {id : Nat} {result : RestoreResult} {timing : Option RestoreTiming}
    {fault : Option String} {Q : ManagerPost (Except CompletionError RestoreReply)}
    (hcap : .engine id ∈ held) (hreport : .report id ∈ held) (hQ : ∀ held value t, Q held value t) :
    Goes Q (singleBody (.drained id result timing fault)) held m := by
  refine goes_act stable_true trivial fun t _ _ => ⟨⟨hcap, hreport⟩, ?_⟩
  have hstart : ((ManagerAccess.reporting id).perform t).2.claimed id = false := update_self ..
  change Goes Q (ManagerOp.method none fun _ => (RestoreCall.drained id result timing fault).body)
    held _
  refine goes_method (stable_claimed hcap false) hstart fun _ u _ hu => ?_
  exact keeps_drainedOver (does_body _) hcap hu (fun outcome v _ => hQ held outcome v)
    fun v hv => ⟨rfl, hv⟩

theorem keeps_single {call : RestoreCall} (hfits : Backs held m)
    (hpublish : (single call).isPublish = false)
    (hcaps : (single call).ownCaps ⊆ held) :
    grantDiscipline.Keeps (single call).Promise (fun _ _ => False) (singleBody call) held m := by
  have hpassive : ∀ call : RestoreCall, call.isPassive = true → Goes (fun _ _ _ => True)
      (ManagerOp.call call.body) held m := fun call hcall =>
    goes_passive (fun _ => RestoreCall.passive_body hcall) stable_true trivial
      fun _ _ _ _ => trivial
  cases call with
  | claimLocal id fault drainFault =>
    refine keeps_of_goes (goes_claimLocal (hcaps ⟨id, rfl, .inl rfl⟩) hfits) ?_
    rintro held value t hclaimed id' fault' drainFault' bytes hcall hok -
    cases hcall
    exact hclaimed bytes (Except.ok.inj hok)
  | drained id result timing fault =>
    refine keeps_of_goes (goes_drained (hcaps ⟨id, rfl, .inl rfl⟩)
      (hcaps ⟨id, rfl, .inr ⟨rfl, rfl⟩⟩) fun _ _ _ => trivial) fun _ _ _ _ => ?_
    exact .of_ne fun id fault drainFault hcall => by cases hcall
  | publishLocal id plan more => cases hpublish
  | _ =>
    refine keeps_of_goes (hpassive _ rfl) fun _ _ _ _ => ?_
    exact .of_ne fun id fault drainFault hcall => by cases hcall

theorem keeps_managerBody (hfits : Backs held m) (hpublish : call.isPublish = false)
    (hcaps : call.ownCaps ⊆ held) :
    grantDiscipline.Keeps call.Promise (fun _ _ => False) call.body held m := by
  have hunit : ∀ {op : ManagerOp Unit},
      (∀ id fault drainFault, call ≠ .single (.claimLocal id fault drainFault)) →
      (∀ Q : ManagerPost Unit, (∀ held t, Q held () t) → Goes Q op held m) →
      grantDiscipline.Keeps call.Promise (fun _ _ => False)
        (op >>= fun _ => Process.done (.ok .unit)) held m := by
    intro op hne hop
    refine keeps_of_goes (Q := fun _ _ _ => True) (Goes.bind hfits (hop _ fun held t => ?_))
      fun _ _ _ _ => .of_ne hne
    exact goes_return fun _ _ => trivial
  cases call with
  | single call => exact keeps_single hfits hpublish hcaps
  | dispatch id prepared =>
    exact hunit (fun _ _ _ hcall => by cases hcall) fun Q hQ => goes_dispatch hfits hQ
  | reap event => exact hunit (fun _ _ _ hcall => by cases hcall) fun Q hQ => goes_reapSources hQ
  | closeSession =>
    refine hunit (fun _ _ _ hcall => by cases hcall) fun Q hQ => ?_
    refine goes_free (fun _ _ => trivial) (fun _ => rfl) stable_true trivial fun t _ _ _ => ?_
    exact goes_return fun u _ => hQ _ u
  | setEnvironment fault attempts =>
    refine hunit (fun _ _ _ hcall => by cases hcall) fun Q hQ => ?_
    refine goes_free (fun _ _ => trivial) (fun _ => rfl) stable_true trivial fun t _ _ _ => ?_
    exact goes_return fun u _ => hQ _ u

end Calls

/-! ### Sessions -/

def ManagerCap.IsOfCall (cap : ManagerCap) : Prop :=
  ∀ key, cap ≠ .source key

structure ManagerSystem.Sound (s : ManagerSystem) (held : Nat → Set ManagerCap) : Prop where
  disciplined : Disciplined grantDiscipline Promise (fun _ _ _ => False) s held
  running : ∀ i (cap : ManagerCap), cap.IsOfCall → (cap ∈ held i ↔ ∃ call process,
    s.threads[i]? = some ⟨call, .running process⟩ ∧ cap ∈ call.ownCaps)

section Sessions

variable {s t : ManagerSystem} {held : Set ManagerCap} {heldBy : Nat → Set ManagerCap}
  {call : ManagerCall} {cap : ManagerCap} {i : Nat}

theorem notMem_capsOf (hcap : cap.IsOfCall) (owners : List SourceGrant) : cap ∉ capsOf owners := by
  rintro ⟨owner, -, rfl⟩
  exact hcap owner.source.key rfl

theorem mem_ownedAfter (hcap : cap.IsOfCall) (access : ManagerAccess) (answer : access.Answer) :
    cap ∈ ownedAfter held access answer ↔ cap ∈ held := by
  have hnone := notMem_capsOf hcap
  have hkey := fun key => hcap key
  cases access with
  | prepare id plan later => simp [ownedAfter, hkey]
  | send owner =>
    cases answer with
    | true => simp [ownedAfter, hkey, SourceGrant.cap]
    | false => rfl
  | receive =>
    cases answer with
    | owner owner => simp [ownedAfter, hkey, SourceGrant.cap]
    | _ => rfl
  | closeReceiver => simp [ownedAfter, hnone]
  | takeTask =>
    cases answer with
    | none => rfl
    | some task => simp [ownedAfter, hnone]
  | putTask task => simp [ownedAfter, hnone]
  | release source => simp [ownedAfter, hkey]
  | quarantine owner => simp [ownedAfter, hkey, SourceGrant.cap]
  | _ => rfl

theorem isOfCall_of_mem (hmem : cap ∈ call.ownCaps) : cap.IsOfCall := by
  obtain ⟨id, -, rfl | ⟨rfl, -⟩⟩ := hmem
  all_goals exact fun key heq => by cases heq

theorem ManagerSystem.Sound.free (hs : s.Sound heldBy)
    (hidle : (call.engine?.all fun id => !s.isBusy id) = true) (i : Nat) :
    Disjoint call.ownCaps (heldBy i) := by
  rw [Set.disjoint_left]
  intro cap hmem hheld
  obtain ⟨other, process, hthread, hother⟩ := (hs.running i cap (isOfCall_of_mem hmem)).mp hheld
  obtain ⟨id, hid, hcap⟩ := hmem
  obtain ⟨id', hid', hcap'⟩ := hother
  have hsame : id' = id := by
    rcases hcap with rfl | ⟨rfl, -⟩ <;> rcases hcap' with hcap' | ⟨hcap', -⟩ <;> cases hcap' <;> rfl
  have hbusy : s.isBusy id = true := by
    refine List.any_eq_true.mpr ⟨_, List.mem_of_getElem? hthread, ?_⟩
    simpa using hsame ▸ hid'
  rw [hid] at hidle
  simp [hbusy] at hidle

theorem ManagerSystem.Sound.start (hs : s.Sound heldBy)
    (hnext : s.next body ManagerAccess.perform mayStart (.start call) =
      some t) : ∃ heldBy, t.Sound heldBy := by
  obtain ⟨hmay, rfl⟩ := System.next_start hnext
  obtain ⟨hpublish, hidle⟩ := Bool.and_eq_true_iff.mp hmay
  have hpublish : call.isPublish = false := by simpa using hpublish
  have hfits : Backs call.ownCaps s.memory := by
    refine ⟨hs.disciplined.valid, ?_⟩
    rintro _ ⟨id, -, rfl | ⟨rfl, -⟩⟩ <;> trivial
  refine ⟨_, hs.disciplined.start hfits (fun i _ => hs.free hidle i)
    (keeps_managerBody hfits hpublish subset_rfl), fun i cap hcap => ?_⟩
  by_cases hi : i = s.threads.length
  · subst hi
    rw [update_self]
    simp
  · rw [update_of_ne hi, hs.running i cap hcap]
    have hsame : (s.threads ++ [⟨call, .running call.body⟩])[i]? = s.threads[i]? := by
      rcases Nat.lt_or_gt_of_ne hi with hlt | hgt
      · exact List.getElem?_append_left hlt
      · rw [List.getElem?_eq_none (by simpa using hgt), List.getElem?_eq_none hgt.le]
    rw [hsame]

def sourceCaps (held : Set ManagerCap) : Set ManagerCap :=
  {cap ∈ held | ∃ key, cap = .source key}

theorem ManagerSystem.Sound.reply (hs : s.Sound heldBy) {progress}
    {outcome : Except Unit (Except CompletionError RestoreReply)}
    (hthread : s.threads[i]? = some ⟨call, progress⟩) :
    ∃ heldBy, Sound ⟨s.memory, s.threads.set i ⟨call, .replied outcome⟩⟩ heldBy := by
  have hreply : ∀ t, grantDiscipline.Later (sourceCaps (heldBy i)) s.memory t →
      call.Promise (sourceCaps (heldBy i)) outcome t := by
    rintro t - id fault drainFault bytes - - ⟨-, key, hkey⟩
    cases hkey
  refine ⟨_, hs.disciplined.reply (Set.sep_subset _ _) hreply, fun j cap hcap => ?_⟩
  have hlt := (List.getElem?_eq_some_iff.mp hthread).1
  by_cases hj : j = i
  · subst hj
    rw [update_self, List.getElem?_set_self hlt]
    constructor
    · rintro ⟨-, key, rfl⟩
      exact absurd rfl (hcap key)
    · rintro ⟨other, process, heq, -⟩
      cases heq
  · rw [update_of_ne hj, List.getElem?_set_ne (Ne.symm hj)]
    exact hs.running j cap hcap

theorem ManagerSystem.Sound.act (hs : s.Sound heldBy) {access : ManagerAccess}
    {next : access.Answer → ManagerOp (Except CompletionError RestoreReply)}
    (hthread : s.threads[i]? = some ⟨call, .running (.act access next)⟩) :
    ∃ heldBy, Sound ⟨(access.perform s.memory).2,
      s.threads.set i ⟨call, .running (next (access.perform s.memory).1)⟩⟩ heldBy := by
  obtain ⟨hpermitted, hrest⟩ := hs.disciplined.keeps i _ hthread _ (hs.disciplined.fits i).later
  refine ⟨_, hs.disciplined.act hpermitted hrest, fun j cap hcap => ?_⟩
  have hlt := (List.getElem?_eq_some_iff.mp hthread).1
  by_cases hj : j = i
  · subst hj
    rw [update_self, List.getElem?_set_self hlt]
    refine (mem_ownedAfter hcap _ _).trans ((hs.running j cap hcap).trans ?_)
    rw [hthread]
    simp
  · rw [update_of_ne hj, List.getElem?_set_ne (Ne.symm hj)]
    exact hs.running j cap hcap

theorem ManagerSystem.Sound.advance (hs : s.Sound heldBy)
    (hnext : s.next body ManagerAccess.perform mayStart (.advance i) =
      some t) : ∃ heldBy, t.Sound heldBy := by
  obtain ⟨call, process, hthread, rfl⟩ := System.next_advance hnext
  cases process with
  | done value => exact hs.reply hthread
  | fail error => exact hs.reply hthread
  | again => exact (hs.disciplined.keeps i _ hthread _ (hs.disciplined.fits i).later).elim
  | act access next => exact hs.act hthread

theorem keys_new : Manager.new.keys = [] :=
  rfl

theorem manager_valid_new : Manager.new.Valid where
  placed _ := .inl rfl
  bound _ _ hgranting := by cases hgranting
  backed := by
    rintro id ⟨state, hlive, htag⟩
    have hdecode : GrantState.decode (tagOf id state) = some .reserved := by
      rw [← htag]
      rfl
    rw [decode_tagOf] at hdecode
    cases hdecode
    cases hlive
  keyed := by
    rintro task ⟨rfl⟩ id owner hget
    simp [ReapTask.new] at hget
  distinct := by simp [keys_new]
  owned := by simp [keys_new]
  gone _ hgone := by cases hgone
  claimed _ hclaimed := by cases hclaimed

theorem sound_of_managed (hreach : managerMachine.Reachable s) : ∃ heldBy, s.Sound heldBy := by
  apply hreach.invariant (I := fun s => ∃ heldBy, s.Sound heldBy)
  · rintro s rfl
    refine ⟨fun _ => ∅, ⟨manager_valid_new, ?_, ?_, ?_⟩, ?_⟩
    · exact fun _ _ _ => Set.disjoint_empty _
    · exact fun _ _ hcap => absurd hcap (Set.notMem_empty _)
    · exact fun _ _ hthread => by cases hthread
    · refine fun i cap _ => ⟨fun hcap => absurd hcap (Set.notMem_empty _), ?_⟩
      rintro ⟨call, process, hthread, -⟩
      cases hthread
  · rintro s step t ⟨heldBy, hs⟩ hnext
    cases step with
    | start call => exact hs.start hnext
    | advance i => exact hs.advance hnext

structure GrantsExclusive (s : ManagerSystem) (step : SystemStep ManagerCall) (t : ManagerSystem) :
    Prop where
  /-- A claim that returns a plan leaves its operation claimed. -/
  returned : ∀ i id fault drainFault bytes, step = .advance i →
    t.threads[i]? = some ⟨.single (.claimLocal id fault drainFault),
      .replied (.ok (.ok (.plan (some bytes))))⟩ → t.memory.claimed id = true
  /-- A claimed operation is active. -/
  active : ∀ id, s.memory.claimed id = true → s.memory.area.Active id
  /-- No step changes its state. -/
  unchanged : ∀ id, s.memory.claimed id = true →
    t.memory.area.tags (slotOf id) = s.memory.area.tags (slotOf id)
  /-- Only a call of `drained` ends that. -/
  until_drained : ∀ id, s.memory.claimed id = true → t.memory.claimed id = false →
    ∃ i result timing fault process, step = .advance i ∧
      s.threads[i]? = some ⟨.single (.drained id result timing fault), .running process⟩
  /-- Sources that were given back stay given back. -/
  released : ∀ key ∈ s.memory.released, key ∈ t.memory.released
  /-- A part that can be claimed, or is active, has its sources. -/
  backed : ∀ id, t.memory.area.Live id → ∃ key, t.memory.granting id = some key ∧
    key.operation = id ∧ key ∉ t.memory.released
  /-- Once sources are given back, no claim succeeds for a part that they back. -/
  unclaimable : ∀ key ∈ s.memory.released, ∀ id, t.memory.granting id = some key →
    ∀ fault drainFault bytes,
      ((claimLocal id fault drainFault).run t.memory.area).1 ≠ some (.ok (some bytes))

theorem Happened.released {m m' : Manager} {held' : Set ManagerCap}
    (hstep : Happened held m m' held') : ∀ key ∈ m.released, key ∈ m'.released := by
  intro key hkey
  cases hstep with
  | altered haltered => exact haltered.frame.1 ▸ hkey
  | put owners hbooks | take owners hbooks => exact hbooks.released ▸ hkey
  | prepare id hm' => exact hm' ▸ hkey
  | release _ _ _ hm' =>
    rw [hm']
    exact List.mem_append_left _ hkey
  | claim _ _ _ hm' => exact hm' ▸ hkey

theorem Happened.unclaimed {m m' : Manager} {held' : Set ManagerCap} {id : Nat}
    (hstep : Happened held m m' held') (hclaimed : m.claimed id = true)
    (hended : m'.claimed id = false) : .report id ∈ held := by
  rcases hstep.claimed_or id with hsame | ⟨-, hreport⟩
  · rw [hsame, hclaimed] at hended
    cases hended
  · exact hreport hended

theorem ManagerSystem.Sound.stepped (hs : s.Sound heldBy) {step : SystemStep ManagerCall}
    (hnext : s.next body ManagerAccess.perform mayStart step = some t) :
    t.memory = s.memory ∨ ∃ i call process held', step = .advance i ∧
      s.threads[i]? = some ⟨call, .running process⟩ ∧
      Happened (heldBy i) s.memory t.memory held' := by
  cases step with
  | start call =>
    obtain ⟨-, rfl⟩ := System.next_start hnext
    exact .inl rfl
  | advance i =>
    obtain ⟨call, process, hthread, rfl⟩ := System.next_advance hnext
    cases process with
    | done value => exact .inl rfl
    | fail error => exact .inl rfl
    | again => exact .inl rfl
    | act access next =>
      have hkeeps := hs.disciplined.keeps i _ hthread
      obtain ⟨hpermitted, -⟩ := hkeeps _ (hs.disciplined.fits i).later
      exact .inr ⟨i, call, _, _, rfl, hthread, happened hs.disciplined.valid hpermitted⟩

theorem ManagerSystem.Sound.returned (hs : s.Sound heldBy) {id : Nat}
    {fault drainFault : Option String} {bytes : List UInt8}
    (hnext : s.next body ManagerAccess.perform mayStart (.advance i) = some t)
    (hreplied : t.threads[i]? = some ⟨.single (.claimLocal id fault drainFault),
      .replied (.ok (.ok (.plan (some bytes))))⟩) : t.memory.claimed id = true := by
  obtain ⟨call, process, hthread, rfl⟩ := System.next_advance hnext
  have hlt := (List.getElem?_eq_some_iff.mp hthread).1
  rw [List.getElem?_set_self hlt] at hreplied
  obtain ⟨rfl, hprogress⟩ := Thread.mk.inj (Option.some.inj hreplied)
  have hkeeps := hs.disciplined.keeps i _ hthread
  cases process with
  | done value =>
    refine hkeeps _ (hs.disciplined.fits i).later id fault drainFault bytes rfl
      (Progress.replied.inj hprogress) ?_
    refine (hs.running i (.engine id) fun key heq => by cases heq).mpr ⟨_, _, hthread, ?_⟩
    exact ⟨id, rfl, .inl rfl⟩
  | fail error => cases hprogress
  | again => cases hprogress
  | act access next => cases hprogress

theorem eq_drained_of_report {id : Nat} (hmem : .report id ∈ call.ownCaps) :
    ∃ result timing fault, call = .single (.drained id result timing fault) := by
  obtain ⟨other, hengine, hcap | ⟨hcap, hdrain⟩⟩ := hmem
  · cases hcap
  · obtain rfl := ManagerCap.report.inj hcap
    cases call with
    | single call =>
      cases call with
      | drained other result timing fault =>
        cases hengine
        exact ⟨result, timing, fault, rfl⟩
      | _ => cases hdrain
    | _ => cases hdrain

/-- **Restore grants are exclusive.** Once `claim_local` has returned a plan, no step of the Manager
or of the engine changes the state of its operation before the engine calls `drained`; and the
Manager gives sources back only in a state from which the part that they back can never be claimed,
in any interleaving of the accesses of all calls. -/
theorem restore_grants_exclusive (hreach : managerMachine.Reachable s)
    {step : SystemStep ManagerCall} (hstep : managerMachine.step s step t) :
    GrantsExclusive s step t := by
  obtain ⟨heldBy, hs⟩ := sound_of_managed hreach
  obtain ⟨heldBy', ht⟩ := sound_of_managed (hreach.step hstep)
  have hchange := hs.stepped hstep
  have hreleased : ∀ key ∈ s.memory.released, key ∈ t.memory.released := by
    rcases hchange with hsame | ⟨i, call, process, held', -, -, hhappened⟩
    · rw [hsame]
      exact fun _ h => h
    · exact hhappened.released
  constructor
  case returned =>
    rintro i id fault drainFault bytes rfl hreplied
    exact hs.returned hstep hreplied
  case active => exact hs.disciplined.valid.claimed
  case unchanged =>
    intro id hclaimed
    rcases hchange with hsame | ⟨i, call, process, held', -, -, hhappened⟩
    · rw [hsame]
    · obtain ⟨state, hactive, htag⟩ := hs.disciplined.valid.claimed id hclaimed
      rcases hhappened.active hactive htag with hkept | ⟨-, hended⟩
      · rw [hkept, htag]
      · rw [hclaimed] at hended
        cases hended
  case until_drained =>
    intro id hclaimed hended
    rcases hchange with hsame | ⟨i, call, process, held', rfl, hthread, hhappened⟩
    · rw [hsame, hclaimed] at hended
      cases hended
    · have hheld := hhappened.unclaimed hclaimed hended
      obtain ⟨other, rest, hother, hmem⟩ :=
        (hs.running i (.report id) fun key heq => by cases heq).mp hheld
      obtain ⟨result, timing, fault, rfl⟩ := eq_drained_of_report hmem
      exact ⟨i, result, timing, fault, rest, rfl, hother⟩
  case released => exact hreleased
  case backed =>
    intro id hlive
    obtain ⟨key, hgranting, hkept⟩ := ht.disciplined.valid.backed id hlive
    exact ⟨key, hgranting, (ht.disciplined.valid.bound id key hgranting).1, hkept⟩
  case unclaimable =>
    intro key hkey id hgranting fault drainFault bytes hclaim
    obtain ⟨state, hstate, hgranted⟩ := granted_of_claimLocal hclaim
    have hlive : t.memory.area.Live id := ⟨state, by simp [GrantState.isLive, hgranted], hstate.tag⟩
    obtain ⟨other, hother, hkept⟩ := ht.disciplined.valid.backed id hlive
    obtain rfl := Option.some.inj (hgranting.symm.trans hother)
    exact hkept (hreleased key hkey)

def callSteps (call : ManagerCall) (thread count : Nat) : List (SystemStep ManagerCall) :=
  .start call :: List.replicate count (.advance thread)

/-- Two plans are granted and one of them is claimed; then the task is dropped, up to the access that
gives back the sources of the other one. -/
def abortedSession : List (SystemStep ManagerCall) :=
  callSteps (.single .reserve) 0 5 ++ callSteps (.single .reserve) 1 5 ++
    callSteps (.dispatch 1 (.isLocal [1, 2, 3] [])) 2 7 ++
    callSteps (.dispatch 2 (.isLocal [4] [])) 3 7 ++ callSteps (.reap .received) 4 29 ++
    callSteps (.reap .received) 5 29 ++ callSteps (.single (.claimLocal 1 none none)) 6 10 ++
    callSteps (.reap .aborted) 7 10

theorem restore_grants_exclusive_aborted :
    ∃ s t : ManagerSystem, managerMachine.Reachable s ∧
      managerMachine.step s (.advance 7) t ∧ s.memory.claimed 1 = true ∧
      t.memory.quarantined = [⟨1, 0⟩] ∧ s.memory.released = [] ∧ t.memory.released = [⟨2, 1⟩] ∧
      GrantsExclusive s (.advance 7) t := by
  have hrun : (abortedSession.foldlM
      (System.next body ManagerAccess.perform mayStart)
      (⟨Manager.new, []⟩ : ManagerSystem)).any (fun s =>
        s.memory.claimed 1 = true ∧ s.memory.released = [] ∧
          (s.next body ManagerAccess.perform mayStart (.advance 7)).any
            fun t => t.memory.quarantined = [⟨1, 0⟩] ∧ t.memory.released = [⟨2, 1⟩]) = true := by
    decide +kernel
  obtain ⟨s, hreach, hclaimed, hbefore, hlast⟩ := managerMachine.exists_reachable rfl rfl hrun
  obtain ⟨t, ht⟩ := Option.isSome_iff_exists.mp (Option.isSome_of_any hlast)
  rw [ht] at hlast
  obtain ⟨hquarantined, hreleased⟩ := of_decide_eq_true hlast
  exact ⟨s, t, hreach, ht, hclaimed, hquarantined, hbefore, hreleased,
    restore_grants_exclusive hreach ht⟩

end Sessions

end OrbitKV
