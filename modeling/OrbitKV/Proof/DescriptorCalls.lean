import OrbitKV.Proof.DescriptorLockstep

/-!
# What descriptor calls come to

A generation is consumed at most once. For a client whose slot was not disturbed the Manager reads
what the call has written, and the call returns what the Manager has left.
-/

namespace OrbitKV

open DescriptorExchange Function List

def DescriptorExchange.key (exchange : DescriptorExchange) : Nat × Nat :=
  (exchange.clientToken, exchange.generation)

def ManagerPhase.unanswered : ManagerPhase → List (Nat × Nat)
  | .dispatching command => [(command.clientToken, command.descriptor.generation)]
  | _ => []

namespace Channel

structure History (s : Channel) : Prop where
  consumed_known : ∀ e ∈ s.consumed, (s.clients e.clientToken).isSome
  returned_known : ∀ r ∈ s.returned, (s.clients r.2.clientToken).isSome
  consumed_below : ∀ e ∈ s.consumed, e.clientToken < s.nextClientToken
  returned_below : ∀ r ∈ s.returned, r.2.clientToken < s.nextClientToken
  consumed_past : ∀ e ∈ s.consumed, ∀ session ∈ s.sessions e.clientToken,
    e.generation < session.nextRequestGeneration
  consumed_once : (s.consumed.map key).Nodup
  answered_consumed : (s.answered.map key ++ s.manager.unanswered).Sublist (s.consumed.map key)
  consumed_right : ∀ e ∈ s.consumed, ∀ client ∈ s.clients e.clientToken, client.disturbed = false →
    ∃ code, s.calls[e.call]? = some ⟨e.clientToken, code, e.payload⟩
  returned_right : ∀ r ∈ s.returned, ∀ client ∈ s.clients r.2.clientToken,
    client.disturbed = false →
      (r.1 = .restore ∧ r.2.payload = []) ∨ (r.1 ≠ .restore ∧ r.2 ∈ s.answered)

theorem history_new (firstToken : Nat) : (new firstToken).History where
  consumed_known := nofun
  returned_known := nofun
  consumed_below := nofun
  returned_below := nofun
  consumed_past := nofun
  consumed_once := nodup_nil
  answered_consumed := List.Sublist.slnil
  consumed_right := nofun
  returned_right := nofun

/-! ### What a step does to the histories -/

def Stay (s s' : Channel) : Prop :=
  ∀ token < s.nextClientToken, ∀ client' ∈ s'.clients token, ∃ client ∈ s.clients token,
    client'.disturbed = false → client.disturbed = false

structure Unrecorded (s s' : Channel) : Prop where
  stay : s.Stay s'
  known : ∀ token, (s.clients token).isSome → (s'.clients token).isSome
  next_le : s.nextClientToken ≤ s'.nextClientToken := by exact le_rfl
  sessions_of : ∀ token < s.nextClientToken, ∀ session ∈ s'.sessions token,
    session ∈ s.sessions token := by exact fun _ _ _ hsession => hsession
  calls_prefix : s.calls <+: s'.calls := by exact prefix_rfl
  unanswered_sublist : s'.manager.unanswered.Sublist s.manager.unanswered := by
    exact List.Sublist.refl _
  consumed_eq : s'.consumed = s.consumed := by rfl
  answered_eq : s'.answered = s.answered := by rfl
  returned_eq : s'.returned = s.returned := by rfl

/-- There is one client, and no one else has written into its slot. -/
def Alone (firstToken : Nat) (s : Channel) : Prop :=
  ∀ token, ∀ client ∈ s.clients token, token = firstToken ∧ client.disturbed = false

/-- What every step but `accept` keeps. -/
def Keeps (s s' : Channel) : Prop :=
  s'.History ∧ ∀ firstToken, s.Alone firstToken → s'.Alone firstToken

section History

variable {s s' : Channel}
  {token : Nat} {client client' : BootstrapClient}

theorem Keeps.trans {t : Channel} (hfirst : s.Keeps s') (hrest : s'.History → s'.Keeps t) :
    s.Keeps t :=
  ⟨(hrest hfirst.1).1, fun _ halone => (hrest hfirst.1).2 _ (hfirst.2 _ halone)⟩

theorem History.unrecorded (hs : s.History) (hstep : s.Unrecorded s') : s'.History where
  consumed_known e he := by
    rw [hstep.consumed_eq] at he
    exact hstep.known _ (hs.consumed_known e he)
  returned_known r hr := by
    rw [hstep.returned_eq] at hr
    exact hstep.known _ (hs.returned_known r hr)
  consumed_below e he := by
    rw [hstep.consumed_eq] at he
    exact (hs.consumed_below e he).trans_le hstep.next_le
  returned_below r hr := by
    rw [hstep.returned_eq] at hr
    exact (hs.returned_below r hr).trans_le hstep.next_le
  consumed_past e he session hsession := by
    rw [hstep.consumed_eq] at he
    exact hs.consumed_past e he session
      (hstep.sessions_of _ (hs.consumed_below e he) session hsession)
  consumed_once := by
    rw [hstep.consumed_eq]
    exact hs.consumed_once
  answered_consumed := by
    rw [hstep.consumed_eq, hstep.answered_eq]
    exact ((List.Sublist.refl _).append hstep.unanswered_sublist).trans hs.answered_consumed
  consumed_right e he client' hclient' hclean := by
    rw [hstep.consumed_eq] at he
    obtain ⟨client, hclient, hback⟩ := hstep.stay _ (hs.consumed_below e he) client' hclient'
    obtain ⟨code, hcall⟩ := hs.consumed_right e he client hclient (hback hclean)
    exact ⟨code, getElem?_of_isPrefix hstep.calls_prefix hcall⟩
  returned_right r hr client' hclient' hclean := by
    rw [hstep.returned_eq] at hr
    obtain ⟨client, hclient, hback⟩ := hstep.stay _ (hs.returned_below r hr) client' hclient'
    rw [hstep.answered_eq]
    exact hs.returned_right r hr client hclient (hback hclean)

theorem known_of_clients (hclients : s'.clients = update s.clients token (some client'))
    (other : Nat) (hother : (s.clients other).isSome) : (s'.clients other).isSome := by
  rw [hclients]
  by_cases heq : other = token
  · simp [heq]
  · rwa [update_of_ne heq]

theorem History.of_client (hs : s.History) (hclient : s.clients token = some client)
    (hclients : s'.clients = update s.clients token (some client'))
    (hdisturbed : client'.disturbed = client.disturbed)
    (hnext : s'.nextClientToken = s.nextClientToken) (hsessions : s'.sessions = s.sessions)
    (hcalls : s.calls <+: s'.calls) (hmanager : s'.manager = s.manager)
    (hconsumed : s'.consumed = s.consumed) (hanswered : s'.answered = s.answered)
    (hreturned : s'.returned = s.returned) : s.Keeps s' := by
  have hback : ∀ other, ∀ found' ∈ s'.clients other, ∃ found ∈ s.clients other,
      found'.disturbed = found.disturbed := by
    intro other found' hfound
    rw [hclients] at hfound
    by_cases hother : other = token
    · subst hother
      rw [update_self] at hfound
      cases hfound
      exact ⟨client, hclient, hdisturbed⟩
    · rw [update_of_ne hother] at hfound
      exact ⟨found', hfound, rfl⟩
  constructor
  · refine hs.unrecorded ⟨?_, known_of_clients hclients, hnext.ge, by simp [hsessions], hcalls,
      by rw [hmanager], hconsumed, hanswered, hreturned⟩
    intro other _ found' hfound'
    obtain ⟨found, hfound, hsame⟩ := hback other found' hfound'
    exact ⟨found, hfound, hsame ▸ id⟩
  · intro firstToken halone other found' hfound'
    obtain ⟨found, hfound, hsame⟩ := hback other found' hfound'
    rw [hsame]
    exact halone other found hfound

theorem known_store (s : Channel) (slot : Nat) (stores : List Store) (owner : Option Nat)
    (token : Nat) : ((s.store slot stores owner).clients token).isSome
      = (s.clients token).isSome := by
  simp [store]

theorem stay_store (s : Channel) (slot : Nat) (stores : List Store) (owner : Option Nat) :
    s.Stay (s.store slot stores owner) := by
  intro token _ client' hclient'
  obtain ⟨client, hclient, rfl⟩ := Option.mem_map.mp hclient'
  refine ⟨client, hclient, ?_⟩
  unfold disturb
  split_ifs
  · exact nofun
  · exact id

theorem History.store (hs : s.History) (hknown : (s.clients token).isSome) (slot : Nat)
    (stores : List Store) : s.Keeps (s.store slot stores (some token)) := by
  refine ⟨hs.unrecorded { stay := s.stay_store _ _ _, known := fun _ => by simp [known_store] }, ?_⟩
  intro firstToken halone other found hfound
  obtain ⟨client, hclient⟩ := Option.isSome_iff_exists.mp hknown
  obtain ⟨rfl, -⟩ := halone token client hclient
  obtain ⟨old, hold, rfl⟩ := Option.mem_map.mp hfound
  obtain ⟨rfl, hclean⟩ := halone other old hold
  simpa [disturb] using hclean

theorem disturbed_settle (client : BootstrapClient) (descriptor : DescriptorRef) :
    (client.settle descriptor).1.disturbed = client.disturbed := by
  unfold BootstrapClient.settle
  cases hcompleted : client.completeRequest descriptor with
  | error => rfl
  | ok completed =>
    obtain rfl := BootstrapClient.completeRequest_spec hcompleted
    rfl

theorem History.return (hs : s.History) {r : DescriptorCode × DescriptorExchange}
    (hknown : (s.clients r.2.clientToken).isSome)
    (hbelow : r.2.clientToken < s.nextClientToken)
    (hright : ∀ client ∈ s.clients r.2.clientToken, client.disturbed = false →
      (r.1 = .restore ∧ r.2.payload = []) ∨ (r.1 ≠ .restore ∧ r.2 ∈ s.answered)) :
    History { s with returned := s.returned ++ [r] } :=
  { hs with
    returned_known := List.forall_mem_append.mpr
      ⟨hs.returned_known, List.forall_mem_singleton.mpr hknown⟩
    returned_below := List.forall_mem_append.mpr
      ⟨hs.returned_below, List.forall_mem_singleton.mpr hbelow⟩
    returned_right := List.forall_mem_append.mpr
      ⟨hs.returned_right, List.forall_mem_singleton.mpr hright⟩ }

theorem History.setClient (hs : s.History) (hclient : s.clients token = some client)
    (hdisturbed : client'.disturbed = client.disturbed) : s.Keeps (s.setClient token client') :=
  hs.of_client hclient rfl hdisturbed rfl rfl prefix_rfl rfl rfl rfl rfl

theorem History.settleCall (hs : s.History)
    (hclient : s.clients token = some client) (hbelow : token < s.nextClientToken)
    {request : Request} {descriptor : DescriptorRef} {payload : Payload}
    (hright : client.disturbed = false → (request.code = .restore ∧ payload = []) ∨
      (request.code ≠ .restore ∧
        ⟨request.call, token, descriptor.generation, payload⟩ ∈ s.answered)) :
    s.Keeps (s.settleCall token client request descriptor payload) := by
  have hdisturbed := disturbed_settle client descriptor
  unfold Channel.settleCall
  rcases hsettle : client.settle descriptor with ⟨settled, rfl | rfl⟩
  · rw [hsettle] at hdisturbed
    exact hs.setClient hclient hdisturbed
  · rw [hsettle] at hdisturbed
    refine (hs.setClient hclient hdisturbed).trans fun hset => ⟨hset.return
      (known_of_clients rfl token (by simp [hclient])) hbelow ?_, fun _ => id⟩
    intro found hfound hclean
    have hself : update s.clients token (some settled) token = some found := hfound
    rw [update_self] at hself
    cases hself
    exact hright (hdisturbed ▸ hclean)

theorem History.of_manager (hs : s.History) (hclients : s'.clients = s.clients)
    (hnext : s'.nextClientToken = s.nextClientToken) (hsessions : s'.sessions = s.sessions)
    (hcalls : s'.calls = s.calls) (hunanswered : s'.manager.unanswered.Sublist s.manager.unanswered)
    (hconsumed : s'.consumed = s.consumed) (hanswered : s'.answered = s.answered)
    (hreturned : s'.returned = s.returned) : s.Keeps s' := by
  refine ⟨hs.unrecorded ⟨?_, by simp [hclients], hnext.ge, by simp [hsessions], by rw [hcalls],
    hunanswered, hconsumed, hanswered, hreturned⟩, fun _ halone => by rwa [Alone, hclients]⟩
  intro token _ client hclient
  exact ⟨client, by rwa [hclients] at hclient, id⟩

end History

/-! ### The steps of a client -/

section Client

variable {layout : ArenaLayout} {s s' : Channel} {token : Nat} {client : BootstrapClient}
  (hs : s.History) (hclient : s.clients token = some client)

include hs hclient

theorem History.enter (code : DescriptorCode) (payload : Payload) :
    s.Keeps (s.enter token client code payload) := by
  unfold Channel.enter
  split_ifs
  · exact ⟨hs, fun _ => id⟩
  · exact hs.of_client hclient rfl rfl rfl rfl (prefix_append _ _) rfl rfl rfl rfl

theorem History.write (hwrite : s.write layout token client = some s') : s.Keeps s' := by
  unfold Channel.write at hwrite
  split at hwrite
  · split at hwrite
    · cases hwrite
      exact hs.setClient hclient rfl
    · cases hwrite
      exact hs.setClient hclient rfl
  next request slot first rest descriptor hphase =>
    cases hwrite
    refine (hs.setClient hclient ?_).trans fun hset => hset.store (by simp [Channel.setClient]) _ _
    rfl
  · cases hwrite

theorem History.submit (hsubmit : s.submit token client = some s') : s.Keeps s' := by
  unfold Channel.submit at hsubmit
  split at hsubmit
  · cases hsubmit
    exact hs.of_client hclient rfl rfl rfl rfl prefix_rfl rfl rfl rfl rfl
  · cases hsubmit

theorem History.fail (hfail : s.fail token client = some s') : s.Keeps s' := by
  unfold Channel.fail at hfail
  split at hfail
  · cases hfail
    exact hs.setClient hclient rfl
  · cases hfail
    exact hs.setClient hclient rfl
  · cases hfail

theorem History.receive (hbelow : token < s.nextClientToken) {index : Nat}
    (hreceive : s.receive layout token client index = some s') : s.Keeps s' := by
  unfold Channel.receive at hreceive
  split at hreceive
  · split_ifs at hreceive
    cases hreceive
    have herased : s.Keeps { s with replies := s.replies.eraseIdx index } :=
      hs.of_manager rfl rfl rfl rfl (List.Sublist.refl _) rfl rfl rfl
    refine herased.trans fun herased => ?_
    unfold handleReply
    split_ifs with _ _ _ hrestore
    · exact herased.setClient hclient (disturbed_settle _ _)
    · exact herased.setClient hclient rfl
    · exact herased.setClient hclient rfl
    · exact herased.settleCall hclient hbelow fun _ => .inl ⟨hrestore, rfl⟩
    · split
      · exact herased.setClient hclient rfl
      · exact herased.setClient hclient rfl
  · cases hreceive

theorem History.load (hsound : s.Sound layout) (hload : s.load layout token client = some s') :
    s.Keeps s' := by
  unfold Channel.load at hload
  split at hload
  next request descriptor response slot reader hphase =>
    split at hload
    · cases hload
      exact hs.setClient hclient rfl
    next payload hdone =>
      cases hload
      apply hs.settleCall hclient (hsound.fresh token (by simp [hclient]))
      intro hclean
      have hshown := (hsound.proper token client hclient).phase_shown hclean
      rw [hphase] at hshown
      obtain ⟨rfl, hcode, written, ⟨hanswered, -, hholds, hlen⟩, hreads⟩ := hshown
      have hread := hholds.load hlen hreads layout.slotCapacity
      rw [hdone] at hread
      obtain rfl : payload = written := hread
      exact .inr ⟨hcode, hanswered⟩
    · cases hload
      exact hs.setClient hclient rfl
  · cases hload

end Client

/-! ### The steps of the Manager -/

section Manager

variable {layout : ArenaLayout} {s s' : Channel}

theorem History.reply (hs : s.History) (command : Command) (status : StatusCode) (consumed : Bool)
    (descriptor : DescriptorRef) : s.Keeps (s.reply command status consumed descriptor) :=
  hs.of_manager rfl rfl rfl rfl (nil_sublist _) rfl rfl rfl

theorem History.take (hs : s.History) {index : Nat} {admitted : Bool}
    (htake : s.take layout index admitted = some s') : s.Keeps s' := by
  unfold Channel.take at htake
  split at htake
  · have herased : s.Keeps { s with queue := s.queue.eraseIdx index } :=
      hs.of_manager rfl rfl rfl rfl (List.Sublist.refl _) rfl rfl rfl
    refine herased.trans fun herased => ?_
    split_ifs at htake
    · cases htake
      exact herased.reply _ _ _ _
    · split at htake
      · cases htake
        exact herased.reply _ _ _ _
      · cases htake
        exact herased.of_manager rfl rfl rfl rfl (nil_sublist _) rfl rfl rfl
  · cases htake

theorem History.consume (hs : s.History) (hsound : s.Sound layout) {command : Command} {slot : Nat}
    {reader : Reader} (hmanager : s.manager = .reading command slot reader)
    {session : BootstrapSession} (hsession : s.sessions command.clientToken = some session)
    {payload : Payload}
    (hdone : (s.slots slot).load layout.slotCapacity command.descriptor reader
      = .done (.ok payload)) : s.Keeps (s.consume command session payload) := by
  have hitem := mem_items_of_manager (s := s) (by rw [hmanager]; rfl)
  have hknown := hsound.known _ hitem
  obtain ⟨client, hclient⟩ := Option.isSome_iff_exists.mp hknown
  have hproper := hsound.proper _ client hclient
  obtain ⟨rfl, -, hgeneration⟩ := hproper.located _ hitem rfl
  have hgeneration := hgeneration session hsession
  unfold Channel.consume
  split
  · exact hs.reply _ _ _ _
  next completed hcompleted =>
    obtain rfl := BootstrapSession.completeRequest_spec hcompleted
    refine ⟨?_, fun _ => id⟩
    exact
      { hs with
        consumed_known := List.forall_mem_append.mpr
          ⟨hs.consumed_known, List.forall_mem_singleton.mpr hknown⟩
        consumed_below := List.forall_mem_append.mpr
          ⟨hs.consumed_below, List.forall_mem_singleton.mpr (hsound.fresh _ hknown)⟩
        consumed_past := by
          refine List.forall_mem_append.mpr ⟨fun e he found hfound => ?_,
            List.forall_mem_singleton.mpr fun found hfound => ?_⟩
          · by_cases htoken : e.clientToken = command.clientToken
            · obtain rfl : _ = found := by simpa [htoken] using hfound
              exact Nat.lt_add_right 2 (hs.consumed_past e he session (htoken ▸ hsession))
            · apply hs.consumed_past e he
              simpa [update_of_ne htoken] using hfound
          · obtain rfl : _ = found := by simpa using hfound
            simp only
            omega
        consumed_once := by
          simp only [map_append, map_cons, map_nil]
          refine hs.consumed_once.append (nodup_singleton _) ?_
          rw [disjoint_singleton]
          intro hmem
          obtain ⟨e, he, hkey⟩ := List.mem_map.mp hmem
          have htoken : e.clientToken = command.clientToken := congrArg Prod.fst hkey
          have hsame : e.generation = command.descriptor.generation := congrArg Prod.snd hkey
          have hpast := hs.consumed_past e he session (htoken ▸ hsession)
          omega
        answered_consumed := by
          have hbefore := hs.answered_consumed
          rw [hmanager] at hbefore
          simp only [map_append, map_cons, map_nil]
          refine List.Sublist.append ?_ (List.Sublist.refl _)
          simpa [ManagerPhase.unanswered] using hbefore
        consumed_right := by
          refine List.forall_mem_append.mpr ⟨hs.consumed_right,
            List.forall_mem_singleton.mpr fun found hfound hclean => ?_⟩
          obtain rfl := Option.mem_unique hclient hfound
          obtain ⟨written, ⟨hcall, hholds, hlen⟩, hreads⟩ := hproper.item_shown hclean _ hitem rfl
          have hread := hholds.load hlen hreads layout.slotCapacity
          rw [hdone] at hread
          obtain rfl : payload = written := hread
          exact ⟨command.code, hcall⟩ }

theorem History.fetch (hs : s.History) (hsound : s.Sound layout)
    (hfetch : s.fetch layout = some s') : s.Keeps s' := by
  unfold Channel.fetch at hfetch
  split at hfetch
  next command slot reader hmanager =>
    split at hfetch
    · cases hfetch
      exact hs.reply _ _ _ _
    next payload hdone =>
      obtain ⟨session, hsession, rfl⟩ := Option.map_eq_some_iff.mp hfetch
      exact hs.consume hsound hmanager hsession hdone
    · cases hfetch
      exact hs.of_manager rfl rfl rfl rfl (nil_sublist _) rfl rfl rfl
  · cases hfetch

theorem History.dispatch (hs : s.History) {flag : Bool} {outcome : DispatchOutcome}
    (hdispatch : s.dispatch layout flag outcome = some s') : s.Keeps s' := by
  obtain ⟨command, hmanager, hcases⟩ := dispatch_cases hdispatch
  rcases hcases with ⟨status, -, rfl⟩ | ⟨-, rfl⟩ | ⟨payload, write, -, rfl⟩
  · exact hs.reply _ _ _ _
  · exact hs.reply _ _ _ _
  · have hbefore := hs.answered_consumed
    rw [hmanager] at hbefore
    refine ⟨?_, fun _ => id⟩
    exact
      { hs with
        answered_consumed := by
          simpa [ManagerPhase.unanswered, key] using hbefore
        returned_right := by
          intro r hr client hclient hclean
          rcases hs.returned_right r hr client hclient hclean with hright | ⟨hcode, hmem⟩
          · exact .inl hright
          · exact .inr ⟨hcode, mem_append_left _ hmem⟩ }

theorem History.respond (hs : s.History) (hsound : s.Sound layout) {status : StatusCode}
    {flag : Bool} (hrespond : s.respond status flag = some s') : s.Keeps s' := by
  unfold Channel.respond at hrespond
  split at hrespond
  next command slot first rest descriptor hmanager =>
    cases hrespond
    have hitem := mem_items_of_manager (s := s) (by rw [hmanager]; rfl)
    have hmoved : s.Keeps { s with manager := .responding command ⟨slot, rest, descriptor⟩ } :=
      hs.of_manager rfl rfl rfl rfl (nil_sublist _) rfl rfl rfl
    exact hmoved.trans fun hmoved => hmoved.store (hsound.known _ hitem) slot [first]
  · cases hrespond
    exact hs.reply _ _ _ _
  · cases hrespond

/-! ### Sessions -/

theorem History.accept (hs : s.History) : (s.accept layout).History := by
  unfold Channel.accept
  split
  · exact hs
  next slot generation allocated hallocated =>
    obtain ⟨active, rfl⟩ := allocateSlot_spec hallocated
    have hstay := s.stay_store slot (resetStores generation) none
    have hknown : ∀ token, (s.clients token).isSome →
        ((s.store slot (resetStores generation) none).clients token).isSome :=
      fun _ => by simp [known_store]
    split
    · exact hs.unrecorded { stay := hstay, known := hknown }
    next next hbound =>
      refine hs.unrecorded
        { stay := fun token htoken client hclient => hstay token htoken client ?_
          known := fun token htoken => known_of_clients rfl token (hknown token htoken)
          next_le := by simp [boundedAdd_eq_some hbound]
          sessions_of := fun token htoken session hsession => ?_ }
      · simpa [openSession, update_of_ne htoken.ne] using hclient
      · simpa [openSession, Channel.store, update_of_ne htoken.ne] using hsession

theorem History.dropSession (hs : s.History) (token : Nat) (session : BootstrapSession) :
    s.Keeps (s.dropSession token session) := by
  refine ⟨hs.unrecorded
    { stay := fun _ _ client hclient => ⟨client, hclient, id⟩
      known := fun _ => id
      sessions_of := fun other _ found hfound => ?_ }, fun _ => id⟩
  by_cases hother : other = token
  · subst hother
    simp [Channel.dropSession] at hfound
  · simpa [Channel.dropSession, update_of_ne hother] using hfound

end Manager

/-! ### Runs -/

section Runs

variable {layout : ArenaLayout} {s s' : Channel} {l : ChannelStep} {firstToken : Nat}
  {token : Nat} {client : BootstrapClient}

theorem History.loneNext (hs : s.History) (hsound : s.Sound layout)
    (hnext : s.loneNext layout l = some s') : s.Keeps s' := by
  cases l with
  | accept => cases hnext
  | drop token =>
    simp only [Channel.loneNext, Channel.next] at hnext
    split_ifs at hnext
    obtain ⟨session, -, rfl⟩ := Option.map_eq_some_iff.mp hnext
    exact hs.dropSession token session
  | enter token code payload =>
    obtain ⟨client, hclient, hnext⟩ := Option.bind_eq_some_iff.mp hnext
    split at hnext
    · cases hnext
      exact hs.enter hclient code payload
    · cases hnext
  | write token => exact bind_client hnext fun _ => hs.write
  | submit token => exact bind_client hnext fun _ => hs.submit
  | fail token => exact bind_client hnext fun _ => hs.fail
  | receive token index =>
    obtain ⟨client, hclient, hnext⟩ := Option.bind_eq_some_iff.mp hnext
    exact hs.receive hclient (hsound.fresh token (by simp [hclient])) hnext
  | load token =>
    obtain ⟨client, hclient, hnext⟩ := Option.bind_eq_some_iff.mp hnext
    exact hs.load hclient hsound hnext
  | close token =>
    obtain ⟨client, hclient, rfl⟩ := Option.map_eq_some_iff.mp hnext
    exact hs.setClient hclient rfl
  | take index admitted => exact hs.take hnext
  | fetch => exact hs.fetch hsound hnext
  | dispatch outcome flag => exact hs.dispatch hnext
  | respond status flag => exact hs.respond hsound hnext

theorem loneNext_of_ne (hl : l ≠ .accept) : s.loneNext layout l = s.next layout l := by
  cases l with
  | accept => exact absurd rfl hl
  | _ => rfl

theorem History.next (hs : s.History) (hsound : s.Sound layout)
    (hnext : s.next layout l = some s') : s'.History := by
  rcases eq_or_ne l .accept with rfl | hl
  · simp only [Channel.next] at hnext
    split_ifs at hnext
    cases hnext
    exact hs.accept
  · exact (hs.loneNext hsound ((loneNext_of_ne hl).trans hnext)).1

theorem sound_of_channel (hs : (channelMachine layout firstToken).Reachable s) :
    s.Sound layout ∧ s.History := by
  refine Machine.Reachable.invariant (I := fun s => s.Sound layout ∧ s.History) ?_ ?_ hs
  · rintro _ rfl
    exact ⟨sound_new layout firstToken, history_new firstToken⟩
  · rintro s l s' ⟨hsound, hhistory⟩ hnext
    exact ⟨hsound.next hnext, hhistory.next hsound hnext⟩

theorem Sound.lockstep (hs : s.Sound layout) (hclient : s.clients token = some client)
    (hphase : client.phase = .idle) (hpoisoned : client.poisoned = false)
    {session : BootstrapSession} (hsession : s.sessions token = some session) :
    client.nextGeneration = session.nextRequestGeneration := by
  have hahead : client.ahead = some 0 := by simp [BootstrapClient.ahead, hphase, hpoisoned]
  exact ((hs.proper token client hclient).client_ahead session hsession 0 hahead).symm

theorem next_of_loneNext (hnext : s.loneNext layout l = some s') : s.next layout l = some s' := by
  cases l with
  | accept => cases hnext
  | _ => exact hnext

theorem alone_of_accept (layout : ArenaLayout) (firstToken : Nat) :
    ((new firstToken).accept layout).Alone firstToken := by
  unfold Channel.accept
  split
  · simp [Alone, new]
  next slot generation allocated hallocated =>
    obtain ⟨active, rfl⟩ := allocateSlot_spec hallocated
    split
    · simp [Alone, new, releaseSlot, Channel.store]
    · intro token client hclient
      by_cases htoken : token = firstToken
      · subst htoken
        obtain rfl : _ = client := by simpa [openSession, new] using hclient
        exact ⟨rfl, rfl⟩
      · simp [openSession, new, Channel.store, update_of_ne htoken] at hclient

theorem alone_of_lone (hs : (loneMachine layout firstToken).Reachable s) :
    s.Alone firstToken ∧ s.Sound layout ∧ s.History := by
  refine Machine.Reachable.invariant
    (I := fun s => s.Alone firstToken ∧ s.Sound layout ∧ s.History) ?_ ?_ hs
  · rintro _ rfl
    exact ⟨alone_of_accept layout firstToken, (sound_new layout firstToken).accept,
      (history_new firstToken).accept⟩
  · rintro s l s' ⟨halone, hsound, hhistory⟩ hstep
    obtain ⟨hhistory', halone'⟩ := hhistory.loneNext hsound hstep
    exact ⟨halone' _ halone, hsound.next (next_of_loneNext hstep), hhistory'⟩

end Runs

end Channel

/-! ### The calls of one client -/

section Claims

variable {layout : ArenaLayout} {firstToken : Nat} {s : Channel}

/-- Whatever fails and wherever, between two calls of a client that was not closed both sides are at
the same generation; the Manager consumes a generation once at most, and what it reads is the payload
of the call; a call that returns a response returns the one the Manager has written for its
generation. A Restore returns no response. -/
theorem descriptor_lockstep (hs : (loneMachine layout firstToken).Reachable s) :
    (∀ token, ∀ client ∈ s.clients token, client.phase = .idle → client.poisoned = false →
      ∀ session ∈ s.sessions token, client.nextGeneration = session.nextRequestGeneration) ∧
    (s.consumed.map key).Nodup ∧
    (∀ e ∈ s.consumed, ∃ code, s.calls[e.call]? = some ⟨e.clientToken, code, e.payload⟩) ∧
    (s.answered.map key).Nodup ∧
    (∀ r ∈ s.returned, (r.1 = .restore ∧ r.2.payload = []) ∨
      (r.1 ≠ .restore ∧ r.2 ∈ s.answered)) := by
  obtain ⟨halone, hsound, hhistory⟩ := Channel.alone_of_lone hs
  refine ⟨fun token client hclient hphase hpoisoned session hsession => ?_, hhistory.consumed_once,
    fun e he => ?_, ?_, fun r hr => ?_⟩
  · exact hsound.lockstep hclient hphase hpoisoned hsession
  · obtain ⟨client, hclient⟩ := Option.isSome_iff_exists.mp (hhistory.consumed_known e he)
    exact hhistory.consumed_right e he client hclient (halone _ client hclient).2
  · exact (hhistory.consumed_once.sublist hhistory.answered_consumed).of_append_left
  · obtain ⟨client, hclient⟩ := Option.isSome_iff_exists.mp (hhistory.returned_known r hr)
    exact hhistory.returned_right r hr client hclient (halone _ client hclient).2

def singleSlot : ArenaLayout where
  slotCapacity := 8
  slotStride := 24
  slotCount := 1
  holds_slot := by decide

def requestSteps (token : Nat) (payload : Payload) : List ChannelStep :=
  List.flatten [[.enter token .release payload], .replicate (payload.length + 4) (.write token),
    [.submit token, .take 0 true], .replicate 4 .fetch]

def responseSteps (token : Nat) : List ChannelStep :=
  List.flatten [[.dispatch (.answered []) true], .replicate 4 (.respond .ok true),
    [.receive token 0], .replicate 3 (.load token)]

/-- The first call is refused after its payload was consumed, the second is answered, and the reply
to the third is lost. -/
def threeCalls : List ChannelStep :=
  List.flatten [requestSteps 1 [7], [.dispatch (.failed .miss) true, .receive 1 0],
    requestSteps 1 [8], responseSteps 1, requestSteps 1 [9],
    [.dispatch (.answered []) true, .fail 1]]

theorem descriptor_lockstep_lost_reply :
    ∃ s : Channel, s.consumed.map key = [(1, 1), (1, 3), (1, 5)] ∧
      s.answered.map key = [(1, 3), (1, 5)] ∧
      s.returned = [(.release, ⟨1, 1, 3, []⟩)] ∧
      (s.consumed.map key).Nodup ∧
      (∀ e ∈ s.consumed, ∃ code, s.calls[e.call]? = some ⟨e.clientToken, code, e.payload⟩) ∧
      (∀ r ∈ s.returned, (r.1 = .restore ∧ r.2.payload = []) ∨
        (r.1 ≠ .restore ∧ r.2 ∈ s.answered)) := by
  have hrun : (threeCalls.foldlM (Channel.loneNext singleSlot)
      ((Channel.new 1).accept singleSlot)).any (fun s =>
        decide (s.consumed.map key = [(1, 1), (1, 3), (1, 5)] ∧
          s.answered.map key = [(1, 3), (1, 5)] ∧
          s.returned = [(.release, ⟨1, 1, 3, []⟩)])) = true := by
    decide +kernel
  obtain ⟨s, hreach, hconsumed, hanswered, hreturned⟩ :=
    (loneMachine singleSlot 1).exists_reachable rfl rfl hrun
  obtain ⟨-, honce, hread, -, hright⟩ := descriptor_lockstep hreach
  exact ⟨s, hconsumed, hanswered, hreturned, honce, hread, hright⟩

/-! ### Slots that are used again -/

/-- Client 1 completes a call and loses its session without noticing; its slot goes to client 3, which
starts at generation 3. Client 3 writes its request, client 1 writes its next one, also under
generation 3, and the Manager takes the command of client 3. -/
def reusedSlot : List ChannelStep :=
  List.flatten [[.accept], requestSteps 1 [7], responseSteps 1,
    [.drop 1, .accept, .enter 3 .release [9]], .replicate 5 (.write 3), [.enter 1 .release [5]],
    .replicate 5 (.write 1), [.submit 3, .take 0 true], .replicate 4 .fetch]

/-- The Manager reads for client 3 what client 1 has written. -/
theorem reused_slot_leaks :
    ∃ s, (channelMachine singleSlot 1).Reachable s ∧ ∃ e ∈ s.consumed, e.clientToken = 3 ∧
      e.payload = [5] ∧ (∀ call ∈ s.calls, call.clientToken = 3 → call.payload = [9]) ∧
      ∃ call ∈ s.calls, call.clientToken = 1 ∧ call.payload = [5] := by
  have hrun : (reusedSlot.foldlM (Channel.next singleSlot) (Channel.new 1)).any (fun s =>
      decide (∃ e ∈ s.consumed, e.clientToken = 3 ∧ e.payload = [5] ∧
        (∀ call ∈ s.calls, call.clientToken = 3 → call.payload = [9]) ∧
        ∃ call ∈ s.calls, call.clientToken = 1 ∧ call.payload = [5])) = true := by
    decide +kernel
  exact (channelMachine singleSlot 1).exists_reachable rfl rfl hrun

/-- What the Manager consumes for a client was written by this client, in the call that the command
belongs to, as long as no other client has stored into its slot since it was given to it. -/
theorem consumed_from_owner (hs : (channelMachine layout firstToken).Reachable s)
    {e : DescriptorExchange} (he : e ∈ s.consumed) {client : BootstrapClient}
    (hclient : s.clients e.clientToken = some client) (hclean : client.disturbed = false) :
    ∃ code, s.calls[e.call]? = some ⟨e.clientToken, code, e.payload⟩ :=
  (Channel.sound_of_channel hs).2.consumed_right e he client hclient hclean

def handedOver : List ChannelStep :=
  .accept :: .drop 1 :: .accept :: requestSteps 3 [9]

theorem consumed_from_owner_handed_over :
    ∃ s : Channel, ∃ e ∈ s.consumed, e.clientToken = 3 ∧ e.payload = [9] ∧
      ∃ code, s.calls[e.call]? = some ⟨e.clientToken, code, e.payload⟩ := by
  have hrun : (handedOver.foldlM (Channel.next singleSlot) (Channel.new 1)).any (fun s =>
      decide (∃ e ∈ s.consumed, e.clientToken = 3 ∧ e.payload = [9] ∧
        (s.clients e.clientToken).any (fun client => !client.disturbed) = true)) = true := by
    decide +kernel
  obtain ⟨s, hreach, e, he, htoken, hpayload, hclean⟩ :=
    (channelMachine singleSlot 1).exists_reachable rfl rfl hrun
  obtain ⟨client, hclient⟩ := Option.isSome_iff_exists.mp (Option.isSome_of_any hclean)
  rw [hclient] at hclean
  exact ⟨s, e, he, htoken, hpayload, consumed_from_owner hreach he hclient (by simpa using hclean)⟩

end Claims

end OrbitKV
