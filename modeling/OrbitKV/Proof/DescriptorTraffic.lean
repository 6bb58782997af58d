import OrbitKV.Channel.Descriptor

/-!
# What is under way on the channel

A client has at most one item under way: its command, the Manager's work on it, or the reply. The
session is ahead of the client by what the item or the phase says.
-/

namespace OrbitKV

inductive Traffic where
  | queued (command : Command)
  | reading (command : Command) (slot : Nat) (reader : Reader)
  | dispatching (command : Command)
  | responding (command : Command) (write : PendingWrite)
  | replied (reply : Response)

namespace Traffic

def clientToken : Traffic → Nat
  | queued command | reading command .. | dispatching command | responding command _ =>
    command.clientToken
  | replied reply => reply.clientToken

def call : Traffic → Nat
  | queued command | reading command .. | dispatching command | responding command _ => command.call
  | replied reply => reply.call

def ahead : Traffic → Option Nat
  | queued _ | reading .. => some 0
  | dispatching _ | responding .. => some 2
  | replied reply => if reply.consumed then some 2 else none

end Traffic

def ManagerPhase.item? : ManagerPhase → Option Traffic
  | .idle => none
  | .reading command slot reader => some (.reading command slot reader)
  | .dispatching command => some (.dispatching command)
  | .responding command write => some (.responding command write)

namespace BootstrapClient

def Awaits (client : BootstrapClient) (call : Nat) : Prop :=
  match client.phase with
  | .idle => client.poisoned = true
  | .waiting request _ => request.call = call
  | _ => False

def ahead (client : BootstrapClient) : Option Nat :=
  match client.phase with
  | .idle => if client.poisoned then none else some 0
  | .entered _ | .writing .. => some 0
  | .waiting .. => none
  | .reading .. => some 2

def request? (client : BootstrapClient) : Option Request :=
  match client.phase with
  | .idle => none
  | .entered request | .writing request _ | .waiting request _ | .reading request .. => some request

variable {client : BootstrapClient}

theorem not_awaits_of_ahead {n call : Nat}
    (hahead : client.ahead = some n) : ¬ client.Awaits call := by
  unfold ahead at hahead
  unfold Awaits
  split <;> simp_all

theorem eq_zero_of_mem_ahead_finish {n : Nat} (hn : n ∈ client.finish.ahead) : n = 0 := by
  simp only [ahead, finish, Option.mem_def] at hn
  by_cases hpoisoned : client.poisoned = true
  · simp [hpoisoned] at hn
  · simpa [hpoisoned, eq_comm] using hn

theorem ahead_finish_of_poisoned (hpoisoned : client.poisoned = true) :
    client.finish.ahead = none := by
  simp [ahead, finish, hpoisoned]

end BootstrapClient

namespace Channel

def posted (s : Channel) : List Traffic :=
  s.queue.map .queued ++ s.replies.map .replied

def items (s : Channel) : List Traffic :=
  s.manager.item?.toList ++ s.posted

/-! ### The invariant of one client -/

def Located (layout : ArenaLayout) (slotIndex : Nat) (session : Option BootstrapSession) :
    Traffic → Prop
  | .reading command slot _ =>
    slot = slotIndex ∧ layout.descriptorSlot command.descriptor.offset = .ok slot ∧
      ∀ x ∈ session, x.nextRequestGeneration = command.descriptor.generation
  | .dispatching command => layout.descriptorSlot command.descriptor.offset = .ok slotIndex
  | .responding _ write => write.slot = slotIndex
  | .queued _ | .replied _ => True

def ShowsRequest (s : Channel) (slot : ArenaSlot) (command : Command) (payload : Payload) : Prop :=
  s.calls[command.call]? = some ⟨command.clientToken, command.code, payload⟩ ∧
    slot.Holds command.descriptor.generation payload ∧
    command.descriptor.len = payload.length

def ShowsResponse (s : Channel) (slot : ArenaSlot) (call token generation : Nat)
    (response : DescriptorRef) (payload : Payload) : Prop :=
  ⟨call, token, generation, payload⟩ ∈ s.answered ∧
    response.generation = generation + 1 ∧
    slot.Holds response.generation payload ∧
    response.len = payload.length

def ItemShown (s : Channel) (token : Nat) (slot : ArenaSlot) : Traffic → Prop
  | .queued command => ∃ payload, s.ShowsRequest slot command payload
  | .reading command _ reader => ∃ payload, s.ShowsRequest slot command payload ∧ reader.Reads payload
  | .dispatching command => ∃ payload, s.calls[command.call]? = some ⟨token, command.code, payload⟩
  | .responding command write =>
    ∃ payload, s.ShowsResponse (write.stores.foldl ArenaSlot.store slot) command.call token
      command.descriptor.generation write.descriptor payload
  | .replied reply =>
    reply.status = .ok → reply.consumed = true →
      (∃ payload, s.calls[reply.call]? = some ⟨token, .restore, payload⟩) ∨
        ∃ generation payload,
          s.ShowsResponse slot reply.call token generation reply.descriptor payload

def PhaseShown (layout : ArenaLayout) (s : Channel) (token slotIndex : Nat) (slot : ArenaSlot) :
    CallPhase → Prop
  | .idle | .entered _ => True
  | .writing request write =>
    write.slot = slotIndex ∧ layout.slotOffset slotIndex = .ok write.descriptor.offset ∧
      (write.stores.foldl ArenaSlot.store slot).Holds write.descriptor.generation request.payload ∧
      write.descriptor.len = request.payload.length
  | .waiting _ descriptor => layout.slotOffset slotIndex = .ok descriptor.offset
  | .reading request descriptor response slot' reader =>
    slot' = slotIndex ∧ request.code ≠ .restore ∧
      ∃ payload, s.ShowsResponse slot request.call token descriptor.generation response payload ∧
        reader.Reads payload

structure Proper (layout : ArenaLayout) (s : Channel) (token : Nat) (client : BootstrapClient) :
    Prop where
  session_eq : ∀ session ∈ s.sessions token,
    session.clientToken = token ∧ session.slotIndex = client.slotIndex
  client_ahead : ∀ session ∈ s.sessions token, ∀ n ∈ client.ahead,
    session.nextRequestGeneration = client.nextGeneration + n
  awaits : ∀ item ∈ s.items, item.clientToken = token → client.Awaits item.call
  item_ahead : ∀ item ∈ s.items, item.clientToken = token → ∀ session ∈ s.sessions token,
    ∀ n ∈ item.ahead, session.nextRequestGeneration = client.nextGeneration + n
  located : ∀ item ∈ s.items, item.clientToken = token →
    Located layout client.slotIndex (s.sessions token) item
  recorded : ∀ request ∈ client.request?,
    s.calls[request.call]? = some ⟨token, request.code, request.payload⟩
  phase_shown : client.disturbed = false →
    s.PhaseShown layout token client.slotIndex (s.slots client.slotIndex) client.phase
  item_shown : client.disturbed = false → ∀ item ∈ s.items, item.clientToken = token →
    s.ItemShown token (s.slots client.slotIndex) item

theorem Proper.no_item {layout : ArenaLayout} {s : Channel} {token n : Nat}
    {client : BootstrapClient} (hproper : s.Proper layout token client)
    (hahead : client.ahead = some n) {item : Traffic} (hitem : item ∈ s.items) :
    item.clientToken ≠ token := by
  intro htoken
  exact BootstrapClient.not_awaits_of_ahead hahead (hproper.awaits item hitem htoken)

/-! ### Steps made by or for another client -/

section Shown

variable {layout : ArenaLayout} {s s' : Channel} {slot : ArenaSlot}

theorem getElem?_of_isPrefix {calls calls' : List DescriptorCall} (hcalls : calls <+: calls')
    {index : Nat} {call : DescriptorCall} (hcall : calls[index]? = some call) :
    calls'[index]? = some call := by
  obtain ⟨rest, rfl⟩ := hcalls
  obtain ⟨hindex, -⟩ := List.getElem?_eq_some_iff.mp hcall
  rw [List.getElem?_append_left hindex, hcall]

variable (hcalls : s.calls <+: s'.calls) (hanswered : s.answered <+: s'.answered)

include hcalls in
theorem ShowsRequest.mono {command : Command} {payload : Payload}
    (hshows : s.ShowsRequest slot command payload) : s'.ShowsRequest slot command payload :=
  ⟨getElem?_of_isPrefix hcalls hshows.1, hshows.2⟩

include hanswered in
theorem ShowsResponse.mono {call token generation : Nat} {response : DescriptorRef}
    {payload : Payload} (hshows : s.ShowsResponse slot call token generation response payload) :
    s'.ShowsResponse slot call token generation response payload :=
  ⟨hanswered.subset hshows.1, hshows.2⟩

include hanswered in
theorem PhaseShown.mono {token slotIndex : Nat} {phase : CallPhase}
    (hshown : s.PhaseShown layout token slotIndex slot phase) :
    s'.PhaseShown layout token slotIndex slot phase := by
  cases phase with
  | idle | entered => trivial
  | writing | waiting => exact hshown
  | reading =>
    obtain ⟨hslot, hcode, payload, hshows, hreads⟩ := hshown
    exact ⟨hslot, hcode, payload, hshows.mono hanswered, hreads⟩

include hcalls hanswered in
theorem ItemShown.mono {token : Nat} {item : Traffic} (hshown : s.ItemShown token slot item) :
    s'.ItemShown token slot item := by
  cases item with
  | queued =>
    obtain ⟨payload, hshows⟩ := hshown
    exact ⟨payload, hshows.mono hcalls⟩
  | reading =>
    obtain ⟨payload, hshows, hreads⟩ := hshown
    exact ⟨payload, hshows.mono hcalls, hreads⟩
  | dispatching =>
    obtain ⟨payload, hcall⟩ := hshown
    exact ⟨payload, getElem?_of_isPrefix hcalls hcall⟩
  | responding =>
    obtain ⟨payload, hshows⟩ := hshown
    exact ⟨payload, hshows.mono hanswered⟩
  | replied =>
    intro hstatus hconsumed
    rcases hshown hstatus hconsumed with ⟨payload, hcall⟩ | ⟨generation, payload, hshows⟩
    · exact .inl ⟨payload, getElem?_of_isPrefix hcalls hcall⟩
    · exact .inr ⟨generation, payload, hshows.mono hanswered⟩

end Shown

structure Bystands (s s' : Channel) (token : Nat) : Prop where
  sessions_eq : s'.sessions token = s.sessions token
  items_mem : ∀ item ∈ s'.items, item.clientToken = token → item ∈ s.items
  calls_prefix : s.calls <+: s'.calls
  answered_prefix : s.answered <+: s'.answered
  client_of : ∀ client' ∈ s'.clients token, ∃ client ∈ s.clients token,
    (client' = client ∧ s'.slots client.slotIndex = s.slots client.slotIndex) ∨
      client' = { client with disturbed := true }

section Bystands

variable {layout : ArenaLayout} {s s' : Channel} {token : Nat}

theorem Bystands.proper (hby : s.Bystands s' token) {client' : BootstrapClient}
    (hclient' : client' ∈ s'.clients token)
    (hproper : ∀ client ∈ s.clients token, s.Proper layout token client) :
    s'.Proper layout token client' := by
  obtain ⟨client, hclient, hcases⟩ := hby.client_of client' hclient'
  have hold := hproper client hclient
  have hrest : ∀ disturbed, (disturbed = false → s'.slots client.slotIndex = s.slots client.slotIndex ∧
      client.disturbed = false) → s'.Proper layout token { client with disturbed := disturbed } := by
    intro disturbed hslots
    exact
      { session_eq := by
          rw [hby.sessions_eq]
          exact hold.session_eq
        client_ahead := by
          rw [hby.sessions_eq]
          exact hold.client_ahead
        awaits := fun item hitem htoken => hold.awaits item (hby.items_mem item hitem htoken) htoken
        item_ahead := fun item hitem htoken => by
          rw [hby.sessions_eq]
          exact hold.item_ahead item (hby.items_mem item hitem htoken) htoken
        located := fun item hitem htoken => by
          rw [hby.sessions_eq]
          exact hold.located item (hby.items_mem item hitem htoken) htoken
        recorded := fun request hrequest =>
          getElem?_of_isPrefix hby.calls_prefix (hold.recorded request hrequest)
        phase_shown := fun hdisturbed => by
          obtain ⟨hslot, hclean⟩ := hslots hdisturbed
          rw [hslot]
          exact (hold.phase_shown hclean).mono hby.answered_prefix
        item_shown := fun hdisturbed item hitem htoken => by
          obtain ⟨hslot, hclean⟩ := hslots hdisturbed
          rw [hslot]
          exact (hold.item_shown hclean item (hby.items_mem item hitem htoken) htoken).mono
            hby.calls_prefix hby.answered_prefix }
  rcases hcases with ⟨rfl, hslot⟩ | rfl
  · exact hrest client'.disturbed fun hclean => ⟨hslot, hclean⟩
  · exact hrest true (by simp)

theorem Bystands.of_eq (hsessions : s'.sessions token = s.sessions token)
    (hitems : ∀ item ∈ s'.items, item.clientToken = token → item ∈ s.items)
    (hcalls : s.calls <+: s'.calls) (hanswered : s.answered <+: s'.answered)
    (hclients : s'.clients token = s.clients token) (hslots : s'.slots = s.slots) :
    s.Bystands s' token := by
  refine ⟨hsessions, hitems, hcalls, hanswered, fun client hclient => ?_⟩
  rw [hclients] at hclient
  exact ⟨client, hclient, .inl ⟨rfl, by rw [hslots]⟩⟩

theorem Bystands.of_store {slot : Nat} {owner : Option Nat} (howner : owner ≠ some token)
    (hsessions : s'.sessions token = s.sessions token)
    (hitems : ∀ item ∈ s'.items, item.clientToken = token → item ∈ s.items)
    (hcalls : s.calls <+: s'.calls) (hanswered : s.answered <+: s'.answered)
    (hclients : s'.clients token = (s.clients token).map (disturb slot owner token))
    (hslots : ∀ other ≠ slot, s'.slots other = s.slots other) : s.Bystands s' token := by
  refine ⟨hsessions, hitems, hcalls, hanswered, fun client' hclient' => ?_⟩
  rw [hclients, Option.mem_map] at hclient'
  obtain ⟨client, hclient, rfl⟩ := hclient'
  refine ⟨client, hclient, ?_⟩
  unfold disturb
  split_ifs with hslot
  · exact .inr rfl
  · exact .inl ⟨rfl, hslots _ fun heq => hslot ⟨heq, howner⟩⟩

end Bystands

/-! ### How the items under way change -/

/-- A step of the client `token` keeps the items, replaces its item, adds one or takes one away. -/
inductive ItemsMove (token : Nat) (l l' : List Traffic) : Prop where
  | keep (heq : l' = l)
  | replace {x y : Traffic} {rest : List Traffic} (hold : l.Perm (x :: rest))
      (hnew : l'.Perm (y :: rest)) (hx : x.clientToken = token) (hy : y.clientToken = token)
  | add {y : Traffic} (hnone : ∀ x ∈ l, x.clientToken ≠ token) (hnew : l'.Perm (y :: l))
      (hy : y.clientToken = token)
  | remove {x : Traffic} (hold : l.Perm (x :: l')) (hx : x.clientToken = token)

section ItemsMove

variable {token : Nat} {l l' : List Traffic}

theorem ItemsMove.mem_of_ne (hmove : ItemsMove token l l') {item : Traffic} (hitem : item ∈ l')
    (hne : item.clientToken ≠ token) : item ∈ l := by
  cases hmove with
  | keep heq => rwa [← heq]
  | replace hold hnew hx hy =>
    rcases List.mem_cons.mp (hnew.mem_iff.mp hitem) with rfl | hrest
    · exact absurd hy hne
    · exact hold.mem_iff.mpr (List.mem_cons_of_mem _ hrest)
  | add hnone hnew hy =>
    rcases List.mem_cons.mp (hnew.mem_iff.mp hitem) with rfl | hrest
    · exact absurd hy hne
    · exact hrest
  | remove hold hx => exact hold.mem_iff.mpr (List.mem_cons_of_mem _ hitem)

theorem ItemsMove.nodup (hmove : ItemsMove token l l') (hunique : (l.map Traffic.clientToken).Nodup) :
    (l'.map Traffic.clientToken).Nodup := by
  cases hmove with
  | keep heq => rwa [heq]
  | replace hold hnew hx hy =>
    rw [(hold.map _).nodup_iff, List.map_cons, hx] at hunique
    rwa [(hnew.map _).nodup_iff, List.map_cons, hy]
  | add hnone hnew hy =>
    rw [(hnew.map _).nodup_iff, List.map_cons, hy, List.nodup_cons]
    refine ⟨fun hmem => ?_, hunique⟩
    obtain ⟨x, hx, htoken⟩ := List.mem_map.mp hmem
    exact hnone x hx htoken
  | remove hold hx =>
    rw [(hold.map _).nodup_iff, List.map_cons] at hunique
    exact hunique.of_cons

theorem eq_of_replace {x y item : Traffic} {rest : List Traffic}
    (hunique : (l.map Traffic.clientToken).Nodup) (hold : l.Perm (x :: rest))
    (hnew : l'.Perm (y :: rest)) (hitem : item ∈ l') (htoken : item.clientToken = x.clientToken) :
    item = y := by
  rcases List.mem_cons.mp (hnew.mem_iff.mp hitem) with rfl | hrest
  · rfl
  · rw [(hold.map _).nodup_iff, List.map_cons, List.nodup_cons] at hunique
    exact absurd (htoken ▸ List.mem_map_of_mem hrest) hunique.1

end ItemsMove

end Channel

end OrbitKV
