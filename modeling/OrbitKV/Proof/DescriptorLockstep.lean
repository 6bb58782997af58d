import OrbitKV.Lib.Word
import OrbitKV.Proof.DescriptorTraffic

/-!
# Every step of the channel keeps the invariant

One lemma per function of the two sides; the clients that a step is not made by or for stand by.
-/

namespace OrbitKV

open BootstrapClient List Function

/-! ### What a write and a completed request are -/

namespace ArenaLayout

variable {layout : ArenaLayout}
  {payload : Payload} {write : PendingWrite}

theorem writeAt_spec {offset generation : Nat}
    (hwrite : layout.writeAt offset generation payload = .ok write) :
    layout.descriptorSlot offset = .ok write.slot ∧
      write.stores = writeStores generation payload ∧
      write.descriptor = ⟨offset, payload.length, generation⟩ := by
  unfold writeAt at hwrite
  split_ifs at hwrite
  · obtain ⟨slot, hslot, hwrite⟩ := bind_eq_ok hwrite
    cases hwrite
    exact ⟨hslot, rfl, rfl⟩
  · obtain ⟨slot, -, hwrite⟩ := bind_eq_ok hwrite
    cases hwrite

theorem writeSlot_spec {slot generation : Nat}
    (hwrite : layout.writeSlot slot generation payload = .ok write) :
    layout.slotOffset slot = .ok write.descriptor.offset ∧ write.slot = slot ∧
      write.stores = writeStores generation payload ∧
      write.descriptor.generation = generation ∧ write.descriptor.len = payload.length := by
  obtain ⟨offset, hoffset, hwrite⟩ := bind_eq_ok hwrite
  obtain ⟨hslot, hstores, hdescriptor⟩ := writeAt_spec hwrite
  rw [layout.descriptorSlot_of_slotOffset hoffset] at hslot
  rw [hdescriptor]
  exact ⟨hoffset, (Except.ok.inj hslot).symm, hstores, rfl, rfl⟩

theorem writeResponse_spec {request : DescriptorRef}
    (hwrite : layout.writeResponse request payload = .ok write) :
    layout.descriptorSlot request.offset = .ok write.slot ∧
      write.stores = writeStores (request.generation + 1) payload ∧
      write.descriptor.generation = request.generation + 1 ∧
      write.descriptor.len = payload.length := by
  unfold writeResponse boundedAdd at hwrite
  split_ifs at hwrite
  obtain ⟨hslot, hstores, hdescriptor⟩ := writeAt_spec hwrite
  rw [hdescriptor]
  exact ⟨hslot, hstores, rfl, rfl⟩

theorem responseSlot_spec {slotIndex slot : Nat} {request response : DescriptorRef}
    (hslot : layout.responseSlot slotIndex request response = .ok slot) :
    response.generation = request.generation + 1 ∧
      layout.descriptorSlot request.offset = .ok slot := by
  unfold responseSlot at hslot
  obtain ⟨expected, hexpected⟩ : ∃ expected, boundedAdd request.generation 1 = some expected := by
    rw [← Option.isSome_iff_exists]
    cases hbound : boundedAdd request.generation 1 with
    | none => simp [hbound] at hslot
    | some => rfl
  obtain rfl := boundedAdd_eq_some hexpected
  simp only [hexpected] at hslot
  by_cases hoffset : response.offset = request.offset
  · by_cases hgeneration : response.generation = request.generation + 1
    · rw [if_neg (by simpa using hoffset), if_neg (by simpa using hgeneration), hoffset] at hslot
      cases hdescriptor : layout.descriptorSlot request.offset with
      | error error =>
        rw [hdescriptor] at hslot
        cases hslot
      | ok found =>
        rw [hdescriptor] at hslot
        exact ⟨hgeneration, by rw [Except.ok.inj hslot]⟩
    · simp [hoffset, hgeneration] at hslot
  · simp only [ne_eq, hoffset, not_false_eq_true, if_true] at hslot
    split at hslot <;> cases hslot

end ArenaLayout

theorem BootstrapClient.completeRequest_spec {client completed : BootstrapClient}
    {request : DescriptorRef} (hcompleted : client.completeRequest request = .ok completed) :
    completed = { client with nextGeneration := client.nextGeneration + 2 } := by
  unfold completeRequest boundedAdd at hcompleted
  split_ifs at hcompleted
  exact (Except.ok.inj hcompleted).symm

theorem BootstrapSession.completeRequest_spec {session completed : BootstrapSession}
    (hcompleted : session.completeRequest = .ok completed) :
    completed = { session with nextRequestGeneration := session.nextRequestGeneration + 2 } := by
  unfold BootstrapSession.completeRequest boundedAdd at hcompleted
  split_ifs at hcompleted
  exact (Except.ok.inj hcompleted).symm

namespace Channel

/-! ### The invariant of the channel -/

structure Sound (layout : ArenaLayout) (s : Channel) : Prop where
  unique : (s.items.map Traffic.clientToken).Nodup
  known : ∀ item ∈ s.items, (s.clients item.clientToken).isSome
  opened : ∀ token, (s.sessions token).isSome → (s.clients token).isSome
  fresh : ∀ token, (s.clients token).isSome → token < s.nextClientToken
  proper : ∀ token, ∀ client ∈ s.clients token, s.Proper layout token client

section Assembly

variable {layout : ArenaLayout} {s s' : Channel} {token : Nat} {client client' : BootstrapClient}

theorem sound_new (layout : ArenaLayout) (firstToken : Nat) : (new firstToken).Sound layout where
  unique := nodup_nil
  known := nofun
  opened := nofun
  fresh := nofun
  proper := nofun

theorem Proper.of_quiet (hnone : ∀ item ∈ s.items, item.clientToken ≠ token)
    (hsession : ∀ session ∈ s.sessions token,
      session.clientToken = token ∧ session.slotIndex = client.slotIndex)
    (hahead : ∀ session ∈ s.sessions token, ∀ n ∈ client.ahead,
      session.nextRequestGeneration = client.nextGeneration + n)
    (hrecorded : ∀ request ∈ client.request?,
      s.calls[request.call]? = some ⟨token, request.code, request.payload⟩)
    (hshown : client.disturbed = false →
      s.PhaseShown layout token client.slotIndex (s.slots client.slotIndex) client.phase) :
    s.Proper layout token client where
  session_eq := hsession
  client_ahead := hahead
  awaits item hitem htoken := absurd htoken (hnone item hitem)
  item_ahead item hitem htoken := absurd htoken (hnone item hitem)
  located item hitem htoken := absurd htoken (hnone item hitem)
  recorded := hrecorded
  phase_shown := hshown
  item_shown _ item hitem htoken := absurd htoken (hnone item hitem)

theorem Proper.of_item (item : Traffic)
    (honly : ∀ x ∈ s.items, x.clientToken = token → x = item)
    (hsession : ∀ session ∈ s.sessions token,
      session.clientToken = token ∧ session.slotIndex = client.slotIndex)
    (hawaits : client.Awaits item.call)
    (hahead : ∀ session ∈ s.sessions token, ∀ n ∈ item.ahead,
      session.nextRequestGeneration = client.nextGeneration + n)
    (hlocated : Located layout client.slotIndex (s.sessions token) item)
    (hrecorded : ∀ request ∈ client.request?,
      s.calls[request.call]? = some ⟨token, request.code, request.payload⟩)
    (hphase : client.disturbed = false →
      s.PhaseShown layout token client.slotIndex (s.slots client.slotIndex) client.phase)
    (hitem : client.disturbed = false → s.ItemShown token (s.slots client.slotIndex) item) :
    s.Proper layout token client where
  session_eq := hsession
  client_ahead _ _ _ hn := absurd hawaits (not_awaits_of_ahead hn)
  awaits x hx htoken := honly x hx htoken ▸ hawaits
  item_ahead x hx htoken := honly x hx htoken ▸ hahead
  located x hx htoken := honly x hx htoken ▸ hlocated
  recorded := hrecorded
  phase_shown := hphase
  item_shown hclean x hx htoken := honly x hx htoken ▸ hitem hclean

theorem Sound.advance (hs : s.Sound layout) (htoken : (s.clients token).isSome)
    (hmove : ItemsMove token s.items s'.items) (hby : ∀ other ≠ token, s.Bystands s' other)
    (hsome : ∀ other, (s'.clients other).isSome = (s.clients other).isSome)
    (hopen : (s'.sessions token).isSome → (s.sessions token).isSome)
    (hnext : s'.nextClientToken = s.nextClientToken)
    (hproper : ∀ client ∈ s'.clients token, s'.Proper layout token client) : s'.Sound layout where
  unique := hmove.nodup hs.unique
  known item hitem := by
    rw [hsome]
    by_cases hitemToken : item.clientToken = token
    · rwa [hitemToken]
    · exact hs.known item (hmove.mem_of_ne hitem hitemToken)
  opened other hother := by
    rw [hsome]
    by_cases heq : other = token
    · rwa [heq]
    · rw [(hby other heq).sessions_eq] at hother
      exact hs.opened other hother
  fresh other hother := by
    rw [hsome] at hother
    rw [hnext]
    exact hs.fresh other hother
  proper other client hclient := by
    by_cases hother : other = token
    · subst hother
      exact hproper client hclient
    · exact (hby other hother).proper hclient (hs.proper other)

variable (hs : s.Sound layout) (hclient : s.clients token = some client)

include hs hclient

theorem Sound.of_client (hclients : s'.clients = update s.clients token (some client'))
    (hproper : s'.Proper layout token client')
    (hmove : ItemsMove token s.items s'.items)
    (hcalls : s.calls <+: s'.calls)
    (hslots : s'.slots = s.slots) (hsessions : s'.sessions = s.sessions)
    (hnext : s'.nextClientToken = s.nextClientToken)
    (hanswered : s'.answered = s.answered) : s'.Sound layout := by
  refine hs.advance (by simp [hclient]) hmove (fun other hother => ?_) (fun other => ?_)
    (by simp [hsessions]) hnext fun found hfound => ?_
  · apply Bystands.of_eq
    · rw [hsessions]
    · exact fun item hitem hitemToken => hmove.mem_of_ne hitem (hitemToken ▸ hother)
    · exact hcalls
    · rw [hanswered]
    · rw [hclients, update_of_ne hother]
    · exact hslots
  · rw [hclients]
    by_cases hother : other = token
    · simp [hother, hclient]
    · rw [update_of_ne hother]
  · rw [hclients, update_self] at hfound
    cases hfound
    exact hproper

theorem Sound.of_setClient (hproper : (s.setClient token client').Proper layout token client') :
    (s.setClient token client').Sound layout :=
  hs.of_client hclient rfl hproper (.keep rfl) prefix_rfl rfl rfl rfl rfl

theorem Sound.of_manager (hmove : ItemsMove token s.items s'.items)
    (hproper : s'.Proper layout token client)
    (hsessions : ∀ other ≠ token, s'.sessions other = s.sessions other)
    (hopen : (s'.sessions token).isSome → (s.sessions token).isSome)
    (hclients : s'.clients = s.clients) (hslots : s'.slots = s.slots)
    (hnext : s'.nextClientToken = s.nextClientToken) (hcalls : s'.calls = s.calls)
    (hanswered : s.answered <+: s'.answered) : s'.Sound layout := by
  refine hs.advance (by simp [hclient]) hmove (fun other hother => ?_) (by simp [hclients])
    hopen hnext fun found hfound => ?_
  · apply Bystands.of_eq
    · exact hsessions other hother
    · exact fun item hitem hitemToken => hmove.mem_of_ne hitem (hitemToken ▸ hother)
    · rw [hcalls]
    · exact hanswered
    · rw [hclients]
    · exact hslots
  · rw [hclients, hclient] at hfound
    cases hfound
    exact hproper

theorem Sound.of_store {slot : Nat} {first : Store}
    (hclients : ∀ other ≠ token,
      s'.clients other = (s.clients other).map (disturb slot (some token) other))
    (hown : s'.clients token = some client') (hproper : s'.Proper layout token client')
    (hslots : s'.slots = update s.slots slot ((s.slots slot).store first))
    (hmove : ItemsMove token s.items s'.items)
    (hsessions : s'.sessions = s.sessions)
    (hnext : s'.nextClientToken = s.nextClientToken)
    (hcalls : s'.calls = s.calls) (hanswered : s'.answered = s.answered) :
    s'.Sound layout := by
  refine hs.advance (by simp [hclient]) hmove (fun other hother => ?_) (fun other => ?_)
    (by simp [hsessions]) hnext fun found hfound => ?_
  · have howner : some token ≠ some other := by simpa using Ne.symm hother
    apply Bystands.of_store howner
    · rw [hsessions]
    · exact fun item hitem hitemToken => hmove.mem_of_ne hitem (hitemToken ▸ hother)
    · rw [hcalls]
    · rw [hanswered]
    · exact hclients other hother
    · intro place hplace
      rw [hslots, update_of_ne hplace]
  · by_cases hother : other = token
    · simp [hother, hown, hclient]
    · simp [hclients other hother]
  · rw [hown] at hfound
    cases hfound
    exact hproper

end Assembly

/-! ### The calls of a client -/

section Client

variable {layout : ArenaLayout} {s s' : Channel} {token : Nat} {client : BootstrapClient}

theorem Proper.go_on {client' : BootstrapClient} {ahead : Nat}
    (hproper : s.Proper layout token client) (hahead : client.ahead = some ahead)
    (hrecorded : ∀ request ∈ client'.request?,
      s'.calls[request.call]? = some ⟨token, request.code, request.payload⟩)
    (hshown : client'.disturbed = false →
      s'.PhaseShown layout token client'.slotIndex (s'.slots client'.slotIndex) client'.phase)
    (hahead' : ∀ n ∈ client'.ahead, n = ahead)
    (hnext : client'.nextGeneration = client.nextGeneration)
    (hslot : client'.slotIndex = client.slotIndex)
    (hitems : s'.items = s.items) (hsessions : s'.sessions = s.sessions) :
    s'.Proper layout token client' := by
  refine .of_quiet ?_ ?_ ?_ hrecorded hshown
  · rw [hitems]
    exact fun item hitem => hproper.no_item hahead hitem
  · rw [hsessions, hslot]
    exact hproper.session_eq
  · rw [hsessions]
    intro session hsession n hn
    rw [hahead' n hn, hnext]
    exact hproper.client_ahead session hsession ahead hahead

theorem Proper.shut (hproper : s.Proper layout token client)
    (hitems : ∀ item ∈ s'.items, item ∈ s.items) (hsessions : s'.sessions = s.sessions)
    (hslots : s'.slots = s.slots) (hcalls : s'.calls = s.calls)
    (hanswered : s'.answered = s.answered) :
    s'.Proper layout token client.close.finish where
  session_eq := by
    rw [hsessions]
    exact hproper.session_eq
  client_ahead session hsession n hn := by
    rw [ahead_finish_of_poisoned rfl] at hn
    cases hn
  awaits _ _ _ := rfl
  item_ahead item hitem htoken := by
    rw [hsessions]
    exact hproper.item_ahead item (hitems item hitem) htoken
  located item hitem htoken := by
    rw [hsessions]
    exact hproper.located item (hitems item hitem) htoken
  recorded := nofun
  phase_shown _ := trivial
  item_shown hclean item hitem htoken := by
    rw [hslots]
    exact (hproper.item_shown hclean item (hitems item hitem) htoken).mono
      (by rw [hcalls]) (by rw [hanswered])

theorem Proper.settle (hsession : ∀ session ∈ s.sessions token,
      session.clientToken = token ∧ session.slotIndex = client.slotIndex)
    (hahead : ∀ session ∈ s.sessions token,
      session.nextRequestGeneration = client.nextGeneration + 2)
    (hnone : ∀ item ∈ s.items, item.clientToken ≠ token) (descriptor : DescriptorRef) :
    s.Proper layout token (client.settle descriptor).1 := by
  unfold BootstrapClient.settle
  cases hcompleted : client.completeRequest descriptor with
  | error error =>
    refine .of_quiet hnone hsession ?_ ?_ ?_
    · intro session _ n hn
      rw [BootstrapClient.ahead_finish_of_poisoned rfl] at hn
      cases hn
    · exact nofun
    · exact fun _ => trivial
  | ok completed =>
    obtain rfl := BootstrapClient.completeRequest_spec hcompleted
    refine .of_quiet hnone hsession ?_ ?_ ?_
    · intro session hfound n hn
      rw [BootstrapClient.eq_zero_of_mem_ahead_finish hn]
      exact hahead session hfound
    · exact nofun
    · exact fun _ => trivial

theorem settleCall_eq (s : Channel) (token : Nat) (client : BootstrapClient) (request : Request)
    (descriptor : DescriptorRef) (payload : Payload) :
    ∃ returned, s.settleCall token client request descriptor payload
      = { s.setClient token (client.settle descriptor).1 with returned := returned } := by
  unfold settleCall
  rcases hsettle : client.settle descriptor with ⟨settled, rfl | rfl⟩
  · exact ⟨_, rfl⟩
  · exact ⟨_, rfl⟩

theorem items_eraseIdx {index : Nat} {reply : Response} (hreply : s.replies[index]? = some reply) :
    s.items.Perm (.replied reply :: { s with replies := s.replies.eraseIdx index }.items) := by
  obtain ⟨hindex, rfl⟩ := List.getElem?_eq_some_iff.mp hreply
  have herase := (getElem_cons_eraseIdx_perm hindex).symm.map Traffic.replied
  simp only [items, posted]
  refine (((herase.append_left _).append_left _).trans ?_)
  rw [map_cons, ← append_assoc, ← append_assoc]
  exact perm_middle

variable (hs : s.Sound layout) (hclient : s.clients token = some client)

include hs hclient

theorem Sound.enter (hphase : client.phase = .idle) (code : DescriptorCode) (payload : Payload) :
    (s.enter token client code payload).Sound layout := by
  have hproper := hs.proper token client hclient
  unfold Channel.enter
  split_ifs with hpoisoned
  · exact hs
  · have hahead : client.ahead = some 0 := by simp [ahead, hphase, hpoisoned]
    refine hs.of_client hclient rfl (hproper.go_on hahead ?_ (fun _ => trivial)
      (by rintro n ⟨⟩; rfl) rfl rfl rfl rfl) (.keep rfl) (prefix_append _ _) rfl rfl rfl rfl
    rintro request ⟨⟩
    exact getElem?_concat_length

theorem Sound.write (hwrite : s.write layout token client = some s') : s'.Sound layout := by
  have hproper := hs.proper token client hclient
  unfold Channel.write at hwrite
  split at hwrite
  next request hphase =>
    have hahead : client.ahead = some 0 := by simp [ahead, hphase]
    have hrecorded := hproper.recorded request (by simp [request?, hphase])
    split at hwrite
    · -- a payload that cannot be written ends the call and leaves the client open
      cases hwrite
      exact hs.of_setClient hclient (hproper.go_on hahead (by rintro _ ⟨⟩) (fun _ => trivial)
        (fun _ => eq_zero_of_mem_ahead_finish) rfl rfl rfl rfl)
    next write hslot =>
      cases hwrite
      obtain ⟨hoffset, hplace, hstores, hgeneration, hlen⟩ := ArenaLayout.writeSlot_spec hslot
      refine hs.of_setClient hclient
        (hproper.go_on hahead ?_ ?_ (by rintro n ⟨⟩; rfl) rfl rfl rfl rfl)
      · rintro found ⟨⟩
        exact hrecorded
      · intro _
        refine ⟨hplace, hoffset, ?_, hlen⟩
        rw [hstores, hgeneration]
        exact writeStores_holds _ _ _
  next request slot first rest descriptor hphase =>
    cases hwrite
    have hahead : client.ahead = some 0 := by simp [ahead, hphase]
    have hrecorded := hproper.recorded request (by simp [request?, hphase])
    have hshown := hproper.phase_shown
    rw [hphase] at hshown
    have hown : ((s.setClient token { client with
        phase := .writing request ⟨slot, rest, descriptor⟩ }).store slot [first]
          (some token)).clients token
        = some { client with phase := .writing request ⟨slot, rest, descriptor⟩ } := by
      simp [store, setClient, disturb]
    refine hs.of_store hclient (fun other hother => ?_) hown (hproper.go_on hahead ?_ ?_
      (by rintro n ⟨⟩; rfl) rfl rfl rfl rfl) rfl (.keep rfl) rfl rfl rfl rfl
    · simp [store, setClient, update_of_ne hother]
    · rintro found ⟨⟩
      exact hrecorded
    · intro hclean
      obtain ⟨rfl, hoffset, hholds, hlen⟩ := hshown hclean
      refine ⟨rfl, hoffset, ?_, hlen⟩
      simpa [store, setClient] using hholds
  · cases hwrite

theorem Sound.submit (hsubmit : s.submit token client = some s') : s'.Sound layout := by
  have hproper := hs.proper token client hclient
  unfold Channel.submit at hsubmit
  split at hsubmit
  next request slot descriptor hphase =>
    cases hsubmit
    have hahead : client.ahead = some 0 := by simp [ahead, hphase]
    have hnone : ∀ item ∈ s.items, item.clientToken ≠ token :=
      fun item hitem => hproper.no_item hahead hitem
    have hrecorded := hproper.recorded request (by simp [request?, hphase])
    have hshown := hproper.phase_shown
    rw [hphase] at hshown
    let command : Command := ⟨request.call, request.code, token, descriptor⟩
    have hperm : (s.manager.item?.toList ++
        ((s.queue ++ [command]).map Traffic.queued ++ s.replies.map Traffic.replied)).Perm
        (.queued command :: s.items) := by
      simp only [items, posted, map_append, map_cons, map_nil, append_assoc, singleton_append]
      rw [← append_assoc, ← append_assoc]
      exact perm_middle
    refine hs.of_client hclient rfl (.of_item (.queued command) ?_ ?_ ?_ ?_ ?_ ?_ ?_ ?_)
      (.add hnone hperm rfl) prefix_rfl rfl rfl rfl rfl
    · intro item hitem htoken
      rcases List.mem_cons.mp (hperm.mem_iff.mp hitem) with rfl | hitem
      · rfl
      · exact absurd htoken (hnone item hitem)
    · exact hproper.session_eq
    · rfl
    · intro session hsession n hn
      obtain rfl : 0 = n := Option.some.inj hn
      exact hproper.client_ahead session hsession 0 hahead
    · trivial
    · intro found hfound
      cases hfound
      exact hrecorded
    · intro hclean
      exact (hshown hclean).2.1
    · intro hclean
      obtain ⟨-, -, hholds, hlen⟩ := hshown hclean
      exact ⟨request.payload, hrecorded, hholds, hlen⟩
  · cases hsubmit

theorem Sound.shut : (s.setClient token client.close.finish).Sound layout :=
  hs.of_setClient hclient
    ((hs.proper token client hclient).shut (fun _ hitem => hitem) rfl rfl rfl rfl)

theorem Sound.fail (hfail : s.fail token client = some s') : s'.Sound layout := by
  unfold Channel.fail at hfail
  split at hfail
  · cases hfail
    exact hs.shut hclient
  · cases hfail
    exact hs.shut hclient
  · cases hfail

theorem Sound.close : (s.setClient token client.close).Sound layout := by
  have hproper := hs.proper token client hclient
  refine hs.of_setClient hclient ?_
  exact
    { hproper with
      client_ahead := by
        intro session hsession n hn
        refine hproper.client_ahead session hsession n ?_
        revert hn
        unfold BootstrapClient.ahead BootstrapClient.close
        cases client.phase <;> simp
      awaits := by
        intro item hitem htoken
        have hawaits := hproper.awaits item hitem htoken
        revert hawaits
        unfold BootstrapClient.Awaits BootstrapClient.close
        cases client.phase <;> simp }

theorem Sound.receive {index : Nat} (hreceive : s.receive layout token client index = some s') :
    s'.Sound layout := by
  have hproper := hs.proper token client hclient
  unfold Channel.receive at hreceive
  split at hreceive
  next request descriptor reply hphase hreply =>
    split_ifs at hreceive with hroute
    obtain ⟨htoken, hcall⟩ := hroute
    have hperm := items_eraseIdx hreply
    have hitem : .replied reply ∈ s.items := hperm.mem_iff.mpr mem_cons_self
    have hnone : ∀ item ∈ { s with replies := s.replies.eraseIdx index }.items,
        item.clientToken ≠ token := by
      intro item hrest hitemToken
      have hunique := hs.unique
      rw [(hperm.map _).nodup_iff, map_cons, nodup_cons] at hunique
      apply hunique.1
      rw [show Traffic.clientToken (.replied reply) = item.clientToken from
        htoken.trans hitemToken.symm]
      exact mem_map_of_mem hrest
    have hahead : reply.consumed = true → ∀ session ∈ s.sessions token,
        session.nextRequestGeneration = client.nextGeneration + 2 := by
      intro hconsumed session hsession
      exact hproper.item_ahead _ hitem htoken session hsession 2 (by simp [Traffic.ahead, hconsumed])
    have hshut : ({ s with replies := s.replies.eraseIdx index }.setClient token
        client.close.finish).Sound layout :=
      hs.of_client hclient rfl (hproper.shut (fun item hrest => hperm.mem_iff.mpr
        (mem_cons_of_mem _ hrest)) rfl rfl rfl rfl) (.remove hperm htoken) prefix_rfl rfl rfl rfl rfl
    have hsettle : reply.consumed = true → ∀ returned, Sound layout
        { { s with replies := s.replies.eraseIdx index }.setClient token
            (client.settle descriptor).1 with returned := returned } := by
      intro hconsumed returned
      refine hs.of_client hclient rfl (.settle ?_ ?_ ?_ _) (.remove hperm htoken) prefix_rfl rfl rfl
        rfl rfl
      · exact hproper.session_eq
      · exact hahead hconsumed
      · exact hnone
    cases hreceive
    unfold handleReply
    split_ifs with hstatus hconsumed hconsumed hrestore
    · exact hsettle hconsumed _
    · exact hshut
    · exact hshut
    · rw [Bool.not_eq_true, Bool.not_eq_false'] at hconsumed
      obtain ⟨returned, heq⟩ := settleCall_eq { s with replies := s.replies.eraseIdx index } token
        client request descriptor []
      rw [heq]
      exact hsettle hconsumed returned
    · rw [Bool.not_eq_true, Bool.not_eq_false'] at hconsumed
      rw [not_not] at hstatus
      split
      · exact hshut
      next slot hslot =>
        obtain ⟨hgeneration, hplace⟩ := ArenaLayout.responseSlot_spec hslot
        have hrecorded := hproper.recorded request (by simp [request?, hphase])
        refine hs.of_client hclient rfl (.of_quiet hnone hproper.session_eq ?_ ?_ ?_)
          (.remove hperm htoken) prefix_rfl rfl rfl rfl rfl
        · rintro session hsession n ⟨⟩
          exact hahead hconsumed session hsession
        · rintro found ⟨⟩
          exact hrecorded
        · intro hclean
          have hoffset := hproper.phase_shown hclean
          rw [hphase] at hoffset
          rw [layout.descriptorSlot_of_slotOffset hoffset] at hplace
          refine ⟨(Except.ok.inj hplace).symm, hrestore, ?_⟩
          rcases hproper.item_shown hclean _ hitem htoken hstatus hconsumed with
            ⟨payload, hrestored⟩ | ⟨generation, payload, hanswered, hnext, hshows⟩
          · rw [hcall, hrecorded] at hrestored
            have hcode := congrArg (Option.map DescriptorCall.code) hrestored
            exact absurd (Option.some.inj hcode) hrestore
          · obtain rfl : generation = descriptor.generation := by omega
            rw [hcall] at hanswered
            exact ⟨payload, ⟨hanswered, hnext, hshows⟩, trivial⟩
  · cases hreceive

theorem Sound.load (hload : s.load layout token client = some s') : s'.Sound layout := by
  have hproper := hs.proper token client hclient
  unfold Channel.load at hload
  split at hload
  next request descriptor response slot reader hphase =>
    have hahead : client.ahead = some 2 := by simp [ahead, hphase]
    have hnone : ∀ item ∈ s.items, item.clientToken ≠ token :=
      fun item hitem => hproper.no_item hahead hitem
    have hrecorded := hproper.recorded request (by simp [request?, hphase])
    split at hload
    · cases hload
      exact hs.shut hclient
    next payload hdone =>
      cases hload
      obtain ⟨returned, heq⟩ := settleCall_eq s token client request descriptor payload
      rw [heq]
      refine hs.of_client hclient rfl (.settle ?_ ?_ ?_ _) (.keep rfl) prefix_rfl rfl rfl rfl rfl
      · exact hproper.session_eq
      · exact fun session hsession => hproper.client_ahead session hsession 2 hahead
      · exact hnone
    · cases hload
      refine hs.of_setClient hclient
        (hproper.go_on hahead ?_ ?_ (by rintro n ⟨⟩; rfl) rfl rfl rfl rfl)
      · rintro found ⟨⟩
        exact hrecorded
      · intro hclean
        have hshown := hproper.phase_shown hclean
        rw [hphase] at hshown
        obtain ⟨rfl, hcode, payload, hshows, hreads⟩ := hshown
        exact ⟨rfl, hcode, payload, hshows, hshows.2.2.1.load hshows.2.2.2 hreads _⟩
  · cases hload

end Client

/-! ### The work of the Manager -/

theorem ArenaError.status_ne_ok (error : ArenaError) : error.status ≠ .ok := by
  cases error <;> simp [ArenaError.status]

section Manager

variable {layout : ArenaLayout} {s s' : Channel}
  {command : Command} {x : Traffic} {status : StatusCode} {flag : Bool}

theorem requestSlot_spec {slot : Nat} (hslot : s.requestSlot layout command = .ok slot) :
    layout.descriptorSlot command.descriptor.offset = .ok slot ∧
      ∃ session ∈ s.sessions command.clientToken, slot = session.slotIndex ∧
        session.nextRequestGeneration = command.descriptor.generation := by
  unfold requestSlot at hslot
  split at hslot
  · cases hslot
  next found hfound =>
    split at hslot
    · cases hslot
    next session hsession =>
      split at hslot
      · cases hslot
      next hvalid =>
        cases hslot
        unfold BootstrapSession.validateRequest at hvalid
        split_ifs at hvalid with htoken hindex hgeneration
        rw [not_not] at hindex hgeneration
        exact ⟨hfound, session, hsession, hindex, hgeneration.symm⟩

theorem Sound.replace (hs : s.Sound layout) {y : Traffic} {rest : List Traffic}
    (hold : s.items.Perm (x :: rest)) (hnew : s'.items.Perm (y :: rest))
    (htoken : y.clientToken = x.clientToken) (hcall : y.call = x.call)
    (hsessions : ∀ other ≠ x.clientToken, s'.sessions other = s.sessions other)
    (hsession : ∀ session ∈ s'.sessions x.clientToken, ∃ old ∈ s.sessions x.clientToken,
      session.clientToken = old.clientToken ∧ session.slotIndex = old.slotIndex ∧
      ∀ client ∈ s.clients x.clientToken, s.Proper layout x.clientToken client →
        ∀ n ∈ y.ahead, session.nextRequestGeneration = client.nextGeneration + n)
    (hlocated : ∀ client ∈ s.clients x.clientToken, s.Proper layout x.clientToken client →
      Located layout client.slotIndex (s'.sessions x.clientToken) y)
    (hshown : ∀ client ∈ s.clients x.clientToken, s.Proper layout x.clientToken client →
      client.disturbed = false → s'.ItemShown x.clientToken (s.slots client.slotIndex) y)
    (hanswered : s.answered <+: s'.answered)
    (hclients : s'.clients = s.clients) (hslots : s'.slots = s.slots)
    (hnext : s'.nextClientToken = s.nextClientToken)
    (hcalls : s'.calls = s.calls) : s'.Sound layout := by
  have hx : x ∈ s.items := hold.mem_iff.mpr mem_cons_self
  obtain ⟨client, hclient⟩ := Option.isSome_iff_exists.mp (hs.known x hx)
  have hproper := hs.proper x.clientToken client hclient
  refine hs.of_manager hclient (.replace hold hnew rfl htoken) ?_ hsessions ?_ hclients hslots hnext
    hcalls hanswered
  rotate_left
  · intro hsome
    obtain ⟨session, hfound⟩ := Option.isSome_iff_exists.mp hsome
    obtain ⟨old, holdSession, -⟩ := hsession session hfound
    rw [Option.mem_def.mp holdSession]
    rfl
  · apply Proper.of_item y
    · intro item hitem hitemToken
      exact eq_of_replace hs.unique hold hnew hitem hitemToken
    · intro session hfound
      obtain ⟨old, holdSession, htokenEq, hslotEq, -⟩ := hsession session hfound
      rw [htokenEq, hslotEq]
      exact hproper.session_eq old holdSession
    · rw [hcall]
      exact hproper.awaits x hx rfl
    · intro session hfound
      obtain ⟨old, -, -, -, hahead⟩ := hsession session hfound
      exact hahead client hclient hproper
    · exact hlocated client hclient hproper
    · rw [hcalls]
      exact hproper.recorded
    · intro hclean
      rw [hslots]
      exact (hproper.phase_shown hclean).mono hanswered
    · intro hclean
      rw [hslots]
      exact hshown client hclient hproper hclean

theorem Sound.replace_item (hs : s.Sound layout) {y : Traffic} {rest : List Traffic}
    (hold : s.items.Perm (x :: rest)) (hnew : s'.items.Perm (y :: rest))
    (htoken : y.clientToken = x.clientToken) (hcall : y.call = x.call)
    (hahead : ∀ n ∈ y.ahead, n ∈ x.ahead)
    (hlocated : ∀ client ∈ s.clients x.clientToken, s.Proper layout x.clientToken client →
      Located layout client.slotIndex (s.sessions x.clientToken) y)
    (hshown : ∀ client ∈ s.clients x.clientToken, s.Proper layout x.clientToken client →
      client.disturbed = false → s'.ItemShown x.clientToken (s.slots client.slotIndex) y)
    (hanswered : s.answered <+: s'.answered)
    (hclients : s'.clients = s.clients) (hslots : s'.slots = s.slots)
    (hsessions : s'.sessions = s.sessions)
    (hnext : s'.nextClientToken = s.nextClientToken)
    (hcalls : s'.calls = s.calls) : s'.Sound layout := by
  have hx : x ∈ s.items := hold.mem_iff.mpr mem_cons_self
  refine hs.replace hold hnew htoken hcall (fun _ _ => by rw [hsessions]) ?_ ?_ hshown hanswered
    hclients hslots hnext hcalls
  · rw [hsessions]
    intro session hsession
    refine ⟨session, hsession, rfl, rfl, fun client _ hproper n hn => ?_⟩
    exact hproper.item_ahead x hx rfl session hsession n (hahead n hn)
  · rw [hsessions]
    exact hlocated

theorem items_of_manager (hx : s.manager.item? = some x) : s.items = x :: s.posted := by
  simp [items, hx]

theorem perm_of_manager (hx : s.manager.item? = some x) : s.items.Perm (x :: s.posted) := by
  rw [items_of_manager hx]

theorem mem_items_of_manager (hx : s.manager.item? = some x) : x ∈ s.items := by
  rw [items_of_manager hx]
  exact mem_cons_self

theorem items_reply (s : Channel) (command : Command) (status : StatusCode) (consumed : Bool)
    (descriptor : DescriptorRef) :
    (s.reply command status consumed descriptor).items.Perm
      (.replied ⟨command.call, command.clientToken, status, consumed, descriptor⟩ :: s.posted) := by
  simp only [items, reply, posted, ManagerPhase.item?, Option.toList_none, nil_append,
    map_append, map_cons, map_nil]
  rw [← append_assoc]
  exact perm_append_singleton _ _

theorem Sound.reply (hs : s.Sound layout) (hx : s.manager.item? = some x)
    (htoken : command.clientToken = x.clientToken)
    (hcall : command.call = x.call) {consumed : Bool}
    {descriptor : DescriptorRef} (hahead : consumed = true → x.ahead = some 2)
    (hshown : ∀ client ∈ s.clients x.clientToken, s.Proper layout x.clientToken client →
      client.disturbed = false → s.ItemShown x.clientToken (s.slots client.slotIndex)
        (.replied ⟨command.call, command.clientToken, status, consumed, descriptor⟩)) :
    (s.reply command status consumed descriptor).Sound layout := by
  refine hs.replace_item (perm_of_manager hx) (s.items_reply command status consumed descriptor)
    htoken hcall ?_ (fun _ _ _ => trivial) hshown prefix_rfl rfl rfl rfl rfl rfl
  intro n hn
  cases consumed with
  | false => cases hn
  | true =>
    rw [hahead rfl]
    exact hn

theorem Sound.reply_error (hs : s.Sound layout) (hx : s.manager.item? = some x)
    (htoken : command.clientToken = x.clientToken) (hcall : command.call = x.call) {consumed : Bool}
    {descriptor : DescriptorRef} (hahead : consumed = true → x.ahead = some 2)
    (hfailed : status = .ok → consumed = false) :
    (s.reply command status consumed descriptor).Sound layout := by
  refine hs.reply hx htoken hcall hahead fun _ _ _ _ hstatus hconsumed => ?_
  rw [hfailed hstatus] at hconsumed
  cases hconsumed

theorem items_queue_eraseIdx {index : Nat} (hidle : s.manager = .idle)
    (hcommand : s.queue[index]? = some command) :
    s.items.Perm (.queued command :: { s with queue := s.queue.eraseIdx index }.posted) := by
  obtain ⟨hindex, rfl⟩ := List.getElem?_eq_some_iff.mp hcommand
  have herase := (getElem_cons_eraseIdx_perm hindex).symm.map Traffic.queued
  simp only [items, posted, hidle, ManagerPhase.item?, Option.toList_none, nil_append]
  exact herase.append_right _

theorem Sound.take (hs : s.Sound layout) {index : Nat} {admitted : Bool}
    (htake : s.take layout index admitted = some s') : s'.Sound layout := by
  unfold Channel.take at htake
  split at htake
  next command hidle hcommand =>
    have hperm := items_queue_eraseIdx hidle hcommand
    have hitem : Traffic.queued command ∈ s.items := hperm.mem_iff.mpr mem_cons_self
    have hrefused : ∀ status, ({ s with queue := s.queue.eraseIdx index }.reply command status
        false command.descriptor).Sound layout := fun status =>
      hs.replace_item hperm (items_reply _ _ _ _ _) rfl rfl nofun (fun _ _ _ => trivial)
        (fun _ _ _ _ _ => nofun) prefix_rfl rfl rfl rfl rfl rfl
    split_ifs at htake
    · cases htake
      exact hrefused _
    split at htake
    · cases htake
      exact hrefused _
    next slot hslot =>
      cases htake
      obtain ⟨hoffset, session, hsession, rfl, hgeneration⟩ := requestSlot_spec hslot
      refine hs.replace_item hperm (List.Perm.refl _) rfl rfl (fun _ hn => hn) ?_ ?_ prefix_rfl
        rfl rfl rfl rfl rfl
      · intro client _ hproper
        refine ⟨(hproper.session_eq session hsession).2, hoffset, fun found hfound => ?_⟩
        obtain rfl := Option.mem_unique hsession hfound
        exact hgeneration
      · intro client _ hproper hclean
        obtain ⟨payload, hshows⟩ := hproper.item_shown hclean _ hitem rfl
        exact ⟨payload, hshows, trivial⟩
  · cases htake

theorem Sound.consume (hs : s.Sound layout) {slot : Nat} {reader : Reader}
    (hmanager : s.manager = .reading command slot reader) {session : BootstrapSession}
    (hsession : s.sessions command.clientToken = some session) (payload : Payload) :
    (s.consume command session payload).Sound layout := by
  have hx : s.manager.item? = some (.reading command slot reader) := by rw [hmanager]; rfl
  have hitem := mem_items_of_manager hx
  unfold Channel.consume
  split
  · exact hs.reply_error hx rfl rfl nofun fun _ => rfl
  next completed hcompleted =>
    obtain rfl := BootstrapSession.completeRequest_spec hcompleted
    refine hs.replace (perm_of_manager hx) (List.Perm.refl _) rfl rfl ?_ ?_ ?_ ?_
      prefix_rfl rfl rfl rfl rfl
    · intro other hother
      exact update_of_ne hother _ _
    · intro found hfound
      have hself : update s.sessions command.clientToken (some { session with
          nextRequestGeneration := session.nextRequestGeneration + 2 }) command.clientToken
          = some found := hfound
      rw [update_self] at hself
      cases hself
      refine ⟨session, hsession, rfl, rfl, fun client _ hproper n hn => ?_⟩
      obtain rfl : 2 = n := Option.some.inj hn
      have hbefore := hproper.item_ahead _ hitem rfl session hsession 0 rfl
      exact congrArg (· + 2) hbefore
    · intro client _ hproper
      obtain ⟨rfl, hoffset, -⟩ := hproper.located _ hitem rfl
      exact hoffset
    · intro client _ hproper hclean
      obtain ⟨recorded, ⟨hcall, -⟩, -⟩ := hproper.item_shown hclean _ hitem rfl
      exact ⟨recorded, hcall⟩

theorem Sound.fetch (hs : s.Sound layout) (hfetch : s.fetch layout = some s') :
    s'.Sound layout := by
  unfold Channel.fetch at hfetch
  split at hfetch
  next command slot reader hmanager =>
    have hx : s.manager.item? = some (.reading command slot reader) := by rw [hmanager]; rfl
    have hitem := mem_items_of_manager hx
    split at hfetch
    · cases hfetch
      exact hs.reply_error hx rfl rfl nofun fun _ => rfl
    next payload hdone =>
      obtain ⟨session, hsession, rfl⟩ := Option.map_eq_some_iff.mp hfetch
      exact hs.consume hmanager hsession payload
    · cases hfetch
      refine hs.replace_item (perm_of_manager hx) (List.Perm.refl _) rfl rfl (fun _ hn => hn) ?_ ?_
        prefix_rfl rfl rfl rfl rfl rfl
      · intro client _ hproper
        have hplace := hproper.located _ hitem rfl
        exact hplace
      · intro client _ hproper hclean
        obtain ⟨rfl, -⟩ := hproper.located _ hitem rfl
        obtain ⟨payload, hshows, hreads⟩ := hproper.item_shown hclean _ hitem rfl
        exact ⟨payload, hshows, hshows.2.1.load hshows.2.2 hreads _⟩
  · cases hfetch

/-- What the handling of a payload can come to: an error that the flag goes with, the acknowledgement
of a Restore, or a response that is written next. -/
theorem dispatch_cases {outcome : DispatchOutcome}
    (hdispatch : s.dispatch layout flag outcome = some s') :
    ∃ command, s.manager = .dispatching command ∧
      ((∃ status, status ≠ .ok ∧ s' = s.reply command status true command.descriptor) ∨
        (command.code = .restore ∧ s' = s.reply command .ok flag command.descriptor) ∨
        ∃ payload write, layout.writeResponse command.descriptor payload = .ok write ∧
          s' = { s with
            manager := .responding command write
            answered := s.answered ++
              [⟨command.call, command.clientToken, command.descriptor.generation, payload⟩] }) := by
  obtain ⟨command, hmanager⟩ : ∃ command, s.manager = .dispatching command := by
    cases hphase : s.manager with
    | dispatching command => exact ⟨command, rfl⟩
    | idle | reading | responding => cases outcome <;> simp [Channel.dispatch, hphase] at hdispatch
  refine ⟨command, hmanager, ?_⟩
  cases outcome with
  | failed status =>
    simp only [Channel.dispatch, hmanager] at hdispatch
    split_ifs at hdispatch with hstatus
    exact .inl ⟨status, hstatus, (Option.some.inj hdispatch).symm⟩
  | accepted =>
    simp only [Channel.dispatch, hmanager] at hdispatch
    split_ifs at hdispatch with hrestore
    exact .inr (.inl ⟨hrestore, (Option.some.inj hdispatch).symm⟩)
  | answered payload =>
    simp only [Channel.dispatch, hmanager] at hdispatch
    split_ifs at hdispatch
    split at hdispatch
    next error _ =>
      exact .inl ⟨error.status, ArenaError.status_ne_ok error, (Option.some.inj hdispatch).symm⟩
    next write hwrite =>
      exact .inr (.inr ⟨payload, write, hwrite, (Option.some.inj hdispatch).symm⟩)

theorem Sound.dispatch (hs : s.Sound layout) {outcome : DispatchOutcome}
    (hdispatch : s.dispatch layout flag outcome = some s') : s'.Sound layout := by
  obtain ⟨command, hmanager, hcases⟩ := dispatch_cases hdispatch
  have hx : s.manager.item? = some (.dispatching command) := by rw [hmanager]; rfl
  have hitem := mem_items_of_manager hx
  rcases hcases with ⟨status, hstatus, rfl⟩ | ⟨hrestore, rfl⟩ | ⟨payload, write, hwrite, rfl⟩
  · exact hs.reply_error hx rfl rfl (fun _ => rfl) fun hok => absurd hok hstatus
  · refine hs.reply hx rfl rfl (fun _ => rfl) ?_
    intro client _ hproper hclean _ _
    obtain ⟨payload, hcall⟩ := hproper.item_shown hclean _ hitem rfl
    rw [hrestore] at hcall
    exact .inl ⟨payload, hcall⟩
  · obtain ⟨hslot, hstores, hgeneration, hlen⟩ := ArenaLayout.writeResponse_spec hwrite
    refine hs.replace_item (perm_of_manager hx) (List.Perm.refl _) rfl rfl (fun _ hn => hn) ?_ ?_
      (prefix_append _ _) rfl rfl rfl rfl rfl
    · intro client _ hproper
      have hplace := hproper.located _ hitem rfl
      rw [Located, hslot] at hplace
      exact Except.ok.inj hplace
    · intro client _ _ _
      refine ⟨payload, mem_append_right _ (mem_singleton_self _), hgeneration, ?_, hlen⟩
      rw [hstores, hgeneration]
      exact writeStores_holds _ _ _

theorem Sound.respond (hs : s.Sound layout)
    (hrespond : s.respond status flag = some s') : s'.Sound layout := by
  unfold Channel.respond at hrespond
  split at hrespond
  next command slot first rest descriptor hmanager =>
    cases hrespond
    have hx : s.manager.item? = some (.responding command ⟨slot, first :: rest, descriptor⟩) := by
      rw [hmanager]; rfl
    have hitem := mem_items_of_manager hx
    obtain ⟨client, hclient⟩ := Option.isSome_iff_exists.mp (hs.known _ hitem)
    have hproper := hs.proper _ client hclient
    have hawaits := hproper.awaits _ hitem rfl
    have hahead := hproper.item_ahead _ hitem rfl
    have hplace : slot = client.slotIndex := hproper.located _ hitem rfl
    have hown : ({ s with manager := .responding command ⟨slot, rest, descriptor⟩ }.store slot
        [first] (some command.clientToken)).clients command.clientToken = some client := by
      simp only [store]
      rw [show s.clients command.clientToken = some client from hclient]
      simp [disturb]
    have hnew : ({ s with manager := .responding command ⟨slot, rest, descriptor⟩ }.store slot
        [first] (some command.clientToken)).items.Perm
        (.responding command ⟨slot, rest, descriptor⟩ :: s.posted) := List.Perm.refl _
    have hold := perm_of_manager hx
    refine hs.of_store hclient (fun _ _ => rfl) hown (.of_item (.responding command
      ⟨slot, rest, descriptor⟩) ?_ ?_ ?_ ?_ ?_ ?_ ?_ ?_) rfl (.replace hold hnew rfl rfl) rfl rfl
      rfl rfl
    · intro item hmem htoken
      exact eq_of_replace hs.unique hold hnew hmem htoken
    · exact hproper.session_eq
    · exact hawaits
    · exact hahead
    · exact hplace
    · exact hproper.recorded
    · -- while the Manager responds its client waits or is closed: no phase of it shows the slot
      intro hclean
      have hshown := hproper.phase_shown hclean
      unfold Awaits at hawaits
      cases hphase : client.phase with
      | idle => trivial
      | waiting request found =>
        rw [hphase] at hshown
        exact hshown
      | entered | writing | reading => simp [hphase] at hawaits
    · intro hclean
      obtain ⟨payload, hshows⟩ := hproper.item_shown hclean _ hitem rfl
      subst hplace
      have hslot : ({ s with manager := .responding command ⟨client.slotIndex, rest, descriptor⟩
          }.store client.slotIndex [first] (some command.clientToken)).slots client.slotIndex
          = (s.slots client.slotIndex).store first := update_self ..
      rw [hslot]
      exact ⟨payload, hshows⟩
  next command slot descriptor hmanager =>
    cases hrespond
    have hx : s.manager.item? = some (.responding command ⟨slot, [], descriptor⟩) := by
      rw [hmanager]; rfl
    have hitem := mem_items_of_manager hx
    refine hs.reply hx rfl rfl (fun _ => rfl) ?_
    intro client _ hproper hclean _ _
    obtain ⟨payload, hshows⟩ := hproper.item_shown hclean _ hitem rfl
    exact .inr ⟨_, payload, hshows⟩
  · cases hrespond

end Manager

/-! ### Sessions come and go -/

section Sessions

variable {layout : ArenaLayout} {s s' : Channel}

theorem allocateSlot_spec {slot generation : Nat} {allocated : Channel}
    (hallocated : s.allocateSlot layout = .ok (slot, generation, allocated)) :
    ∃ active, allocated = { s.store slot (resetStores generation) none with active := active } := by
  unfold Channel.allocateSlot at hallocated
  split at hallocated
  · cases hallocated
  · split at hallocated
    · cases hallocated
    · obtain ⟨rfl, rfl, rfl⟩ := by simpa using Except.ok.inj hallocated
      exact ⟨_, rfl⟩

theorem Sound.reset (hs : s.Sound layout) (slot generation : Nat) (active : Nat → Bool) :
    Sound layout { s.store slot (resetStores generation) none with active := active } := by
  have hsome : ∀ token, ((s.store slot (resetStores generation) none).clients token).isSome
      = (s.clients token).isSome := by
    intro token
    simp [store]
  refine ⟨hs.unique, fun item hitem => ?_, fun token hopen => ?_, fun token hknown => ?_,
    fun token client hclient => ?_⟩
  · rw [hsome]
    exact hs.known item hitem
  · rw [hsome]
    exact hs.opened token hopen
  · rw [hsome] at hknown
    exact hs.fresh token hknown
  · refine Bystands.proper (s := s) ?_ hclient (hs.proper token)
    refine .of_store (show none ≠ some token by simp) rfl (fun _ hitem _ => hitem)
      prefix_rfl prefix_rfl rfl fun other hother => ?_
    exact update_of_ne hother _ _

theorem Sound.releaseSlot (hs : s.Sound layout) (slot : Nat) :
    (s.releaseSlot slot).Sound layout := by
  refine ⟨hs.unique, hs.known, hs.opened, hs.fresh, fun token client hclient => ?_⟩
  refine Bystands.proper (s := s) ?_ hclient (hs.proper token)
  exact .of_eq rfl (fun _ hitem _ => hitem) prefix_rfl prefix_rfl rfl rfl

theorem Sound.openSession (hs : s.Sound layout) (slot generation : Nat) {next : Nat}
    (hnext : s.nextClientToken < next) :
    Sound layout { s.openSession slot generation s.nextClientToken with nextClientToken := next } := by
  have hnew : s.clients s.nextClientToken = none := by
    by_contra hsome
    exact (hs.fresh _ (Option.isSome_iff_ne_none.mpr hsome)).false
  have hmono : ∀ token, (s.clients token).isSome →
      ((s.openSession slot generation s.nextClientToken).clients token).isSome := by
    intro token hknown
    by_cases htoken : token = s.nextClientToken
    · rw [htoken, hnew] at hknown
      cases hknown
    · simpa [Channel.openSession, update_of_ne htoken] using hknown
  refine ⟨hs.unique, fun item hitem => hmono _ (hs.known item hitem), ?_, ?_, ?_⟩
  · intro token hopen
    by_cases htoken : token = s.nextClientToken
    · simp [Channel.openSession, htoken]
    · refine hmono token (hs.opened token ?_)
      simpa [Channel.openSession, update_of_ne htoken] using hopen
  · intro token hknown
    by_cases htoken : token = s.nextClientToken
    · rw [htoken]
      exact hnext
    · refine (hs.fresh token ?_).trans hnext
      simpa [Channel.openSession, update_of_ne htoken] using hknown
  · intro token client hclient
    by_cases htoken : token = s.nextClientToken
    · subst htoken
      obtain rfl : (⟨slot, generation, false, .idle, false⟩ : BootstrapClient) = client := by
        simpa [Channel.openSession] using hclient
      refine .of_quiet ?_ ?_ ?_ nofun fun _ => trivial
      · intro item hitem hitemToken
        have hknown := hs.known item hitem
        rw [hitemToken, hnew] at hknown
        cases hknown
      · intro session hsession
        obtain rfl : (⟨slot, s.nextClientToken, generation⟩ : BootstrapSession) = session := by
          simpa [Channel.openSession] using hsession
        exact ⟨rfl, rfl⟩
      · intro session hsession n hn
        obtain rfl : (⟨slot, s.nextClientToken, generation⟩ : BootstrapSession) = session := by
          simpa [Channel.openSession] using hsession
        obtain rfl : 0 = n := by simpa [ahead] using hn
        rfl
    · refine Bystands.proper (s := s) ?_ hclient (hs.proper token)
      exact .of_eq (update_of_ne htoken _ _) (fun _ hitem _ => hitem) prefix_rfl
        prefix_rfl (update_of_ne htoken _ _) rfl

theorem Sound.accept (hs : s.Sound layout) : (s.accept layout).Sound layout := by
  unfold Channel.accept
  split
  · exact hs
  next slot generation allocated hallocated =>
    obtain ⟨active, rfl⟩ := allocateSlot_spec hallocated
    have hreset := hs.reset slot generation active
    split
    · exact hreset.releaseSlot slot
    next next hbound =>
      have hnext : s.nextClientToken < next := by
        rw [boundedAdd_eq_some hbound]
        omega
      exact hreset.openSession slot generation hnext

theorem Sound.dropSession (hs : s.Sound layout) {token : Nat} {session : BootstrapSession}
    (hsession : s.sessions token = some session) : (s.dropSession token session).Sound layout := by
  have hclosed : (s.dropSession token session).sessions token = none := update_self ..
  have hother : ∀ other ≠ token, (s.dropSession token session).sessions other = s.sessions other :=
    fun other hne => update_of_ne hne _ _
  have hknown := hs.opened token (by simp [hsession])
  refine hs.advance hknown (.keep rfl) (fun other hne => ?_) (fun _ => rfl) (by simp [hclosed])
    rfl fun client hclient => ?_
  · exact .of_eq (hother other hne) (fun _ hitem _ => hitem) prefix_rfl prefix_rfl rfl rfl
  · have hproper := hs.proper token client hclient
    exact
      { hproper with
        session_eq := by simp [hclosed]
        client_ahead := by simp [hclosed]
        item_ahead := by simp [hclosed]
        located := by
          intro item hitem htoken
          have hplace := hproper.located item hitem htoken
          rw [hclosed]
          cases item with
          | reading => exact ⟨hplace.1, hplace.2.1, nofun⟩
          | queued | dispatching | responding | replied => exact hplace }

end Sessions

theorem bind_client {s s' : Channel} {token : Nat} {step : BootstrapClient → Option Channel} {P : Prop}
    (hnext : (s.clients token).bind step = some s')
    (hstep : ∀ client, s.clients token = some client → step client = some s' → P) : P := by
  obtain ⟨client, hclient, hnext⟩ := Option.bind_eq_some_iff.mp hnext
  exact hstep client hclient hnext

theorem Sound.next {layout : ArenaLayout} {s s' : Channel} {l : ChannelStep} (hs : s.Sound layout)
    (hnext : s.next layout l = some s') : s'.Sound layout := by
  cases l with
  | accept =>
    simp only [Channel.next] at hnext
    split_ifs at hnext
    cases hnext
    exact hs.accept
  | drop token =>
    simp only [Channel.next] at hnext
    split_ifs at hnext
    obtain ⟨session, hsession, rfl⟩ := Option.map_eq_some_iff.mp hnext
    exact hs.dropSession hsession
  | enter token code payload =>
    obtain ⟨client, hclient, hnext⟩ := Option.bind_eq_some_iff.mp hnext
    split at hnext
    next hphase =>
      cases hnext
      exact hs.enter hclient hphase code payload
    · cases hnext
  | write token => exact bind_client hnext fun _ => hs.write
  | submit token => exact bind_client hnext fun _ => hs.submit
  | fail token => exact bind_client hnext fun _ => hs.fail
  | receive token index => exact bind_client hnext fun _ h => hs.receive h
  | load token => exact bind_client hnext fun _ => hs.load
  | close token =>
    obtain ⟨client, hclient, rfl⟩ := Option.map_eq_some_iff.mp hnext
    exact hs.close hclient
  | take index admitted => exact hs.take hnext
  | fetch => exact hs.fetch hnext
  | dispatch outcome flag => exact hs.dispatch hnext
  | respond status flag => exact hs.respond hnext

end Channel

end OrbitKV
