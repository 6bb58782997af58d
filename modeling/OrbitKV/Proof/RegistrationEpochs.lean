import OrbitKV.Cluster.Registration

/-!
# Epochs of registrations

A revision names one value of the epoch for ever, so also a transaction that was sent long ago
stores the successor of the epoch it finds or nothing.
-/

namespace OrbitKV

open Std List

def lastRegistered (registered : List Member) (node : String) : Option Member :=
  registered.reverse.find? (·.nodeId = node)

def lastEpoch (registered : List Member) (node : String) : Nat :=
  (lastRegistered registered node).elim 0 (·.epoch)

section LastRegistered

variable {registered : List Member} {member : Member} {node : String}

theorem lastRegistered_concat :
    lastRegistered (registered ++ [member]) node =
      if member.nodeId = node then some member else lastRegistered registered node := by
  rw [lastRegistered, reverse_append, reverse_singleton, singleton_append, find?_cons]
  by_cases hnode : member.nodeId = node
  · simp [hnode]
  · simp [hnode, lastRegistered]

theorem lastRegistered_eq_some (hlast : lastRegistered registered node = some member) :
    member ∈ registered ∧ member.nodeId = node := by
  refine ⟨List.mem_reverse.mp (mem_of_find?_eq_some hlast), ?_⟩
  simpa using find?_some hlast

end LastRegistered

section Registrations

variable {V : Type} (codec : Codec V) (pre : String)

def epochRevision (items : ExtTreeMap String (Item V)) (node : String) : Nat :=
  items[epochKey pre node]?.elim 0 (·.modRevision)

/-! ### The invariant -/

structure Registering.Sent (store : Kv String V) (registered : List Member) (call : Registering V)
    (request : RegisterRequest V) : Prop where
  next : request.member = call.nextMember request.member.epoch
  bound : request.member.epoch < u64Bound
  transaction : ∃ value revision, codec.memberToVec request.member = .ok value ∧
    request.txn = call.transaction codec pre request.member value revision ∧
    revision ≤ store.revision ∧
    (epochRevision pre store.items call.node = revision →
      request.member.epoch = lastEpoch registered call.node + 1)

structure Registering.Consistent (store : Kv String V) (registered : List Member)
    (call : Registering V) : Prop where
  sent : ∀ request, call.request = some request → call.Sent codec pre store registered request
  awaited : ∀ left member, call.phase = .transacting left member →
    member = call.nextMember member.epoch ∧
      (∀ request, call.request = some request → request.member = member) ∧
      (call.reply = some (.ok true) → member ∈ registered)
  returned : ∀ member, call.phase = .returned (.ok member) →
    member ∈ registered ∧ member.nodeId = call.node ∧ member.owner = call.owner ∧
      member.lease = call.lease

structure Registry.Ordered (s : Registry V) : Prop where
  revisions : ∀ (key : String) (item : Item V), s.store.items[key]? = some item →
    0 < item.modRevision ∧ item.modRevision ≤ s.store.revision ∧ 0 < item.version
  leases : ∀ lease ∈ s.leases, lease ≠ 0
  epochs : ∀ node, s.store.items[epochKey pre node]?.map (fun item => (item.lease, item.value)) =
    (lastRegistered s.registered node).map fun member => (0, codec.epochToString member.epoch)
  bounds : ∀ member ∈ s.registered, member.epoch < u64Bound
  members : ∀ (node : String) (item : Item V), s.store.items[memberKey pre node]? = some item →
    ∃ member, lastRegistered s.registered node = some member ∧
      codec.memberToVec member = .ok item.value ∧ item.lease = member.lease ∧ item.version = 1
  increasing : s.registered.Pairwise fun earlier later =>
    earlier.nodeId = later.nodeId → earlier.epoch < later.epoch
  calls : ∀ call ∈ s.calls, call.Consistent codec pre s.store s.registered

variable {codec pre}

theorem ordered_new : (Registry.new : Registry V).Ordered codec pre where
  revisions := by simp [Registry.new, Kv.empty]
  leases := by simp [Registry.new]
  epochs := by simp [Registry.new, Kv.empty, lastRegistered]
  bounds := by simp [Registry.new]
  members := by simp [Registry.new, Kv.empty]
  increasing := List.Pairwise.nil
  calls := by simp [Registry.new]

structure Advances (pre : String) (store : Kv String V) (registered : List Member)
    (store' : Kv String V) (registered' : List Member) : Prop where
  revision : store.revision ≤ store'.revision
  stored : registered ⊆ registered'
  epoch : ∀ node, store.revision < epochRevision pre store'.items node ∨
    epochRevision pre store'.items node = epochRevision pre store.items node ∧
      lastEpoch registered' node = lastEpoch registered node

theorem Registering.Consistent.mono {store store' : Kv String V} {registered registered' : List Member}
    {call : Registering V} (hcall : call.Consistent codec pre store registered)
    (hadvances : Advances pre store registered store' registered') :
    call.Consistent codec pre store' registered' where
  sent request hrequest := by
    obtain ⟨hnext, hbound, value, revision, hvalue, htxn, hrevision, hepoch⟩ :=
      hcall.sent request hrequest
    refine ⟨hnext, hbound, value, revision, hvalue, htxn, hrevision.trans hadvances.revision, ?_⟩
    obtain hwritten | ⟨hsame, hlast⟩ := hadvances.epoch call.node
    · omega
    · rw [hsame, hlast]
      exact hepoch
  awaited left member hphase := by
    obtain ⟨hnext, hrequest, hreply⟩ := hcall.awaited left member hphase
    exact ⟨hnext, hrequest, fun hok => hadvances.stored (hreply hok)⟩
  returned member hphase := by
    obtain ⟨hmem, hidentity⟩ := hcall.returned member hphase
    exact ⟨hadvances.stored hmem, hidentity⟩

/-! ### Calls -/

theorem Registry.Ordered.setCall {s : Registry V} (hs : s.Ordered codec pre) (i : Nat)
    {call : Registering V} (hcall : call.Consistent codec pre s.store s.registered) :
    { s with calls := s.calls.set i call }.Ordered codec pre :=
  { hs with
    calls := fun other hother => by
      obtain hmem | rfl := mem_or_eq_of_mem_set hother
      · exact hs.calls other hmem
      · exact hcall }

theorem Registry.Ordered.call {s : Registry V} (hs : s.Ordered codec pre) {i : Nat}
    {call : Registering V} (hcall : s.calls[i]? = some call) :
    call.Consistent codec pre s.store s.registered :=
  hs.calls call (mem_of_getElem? hcall)

theorem Registering.Consistent.setPhase {store : Kv String V} {registered : List Member}
    {call : Registering V} (hcall : call.Consistent codec pre store registered)
    {phase : RegisterPhase} (htransacting : ∀ left member, phase ≠ .transacting left member)
    (hreturned : ∀ member, phase = .returned (.ok member) → member ∈ registered ∧
      member.nodeId = call.node ∧ member.owner = call.owner ∧ member.lease = call.lease) :
    { call with phase := phase }.Consistent codec pre store registered where
  sent request hrequest := by
    obtain ⟨hnext, hbound, htransaction⟩ := hcall.sent request hrequest
    exact ⟨hnext, hbound, htransaction⟩
  awaited left member hphase := absurd hphase (htransacting left member)
  returned := hreturned

theorem Registering.Consistent.reject {store : Kv String V} {registered : List Member}
    {call : Registering V} (hcall : call.Consistent codec pre store registered)
    (error : Cluster.BootstrapError) :
    { call with phase := .returned (.error error) }.Consistent codec pre store registered := by
  apply hcall.setPhase
  · intro left member hphase
    cases hphase
  · intro member hphase
    cases hphase

theorem consistent_new (store : Kv String V) (registered : List Member) (node : String)
    (owner : CacheOwner) (lease : Int) (expectedCluster : Nat) (format : ClusterFormat V) :
    (Registering.new node owner lease expectedCluster format).Consistent codec pre store registered
    where
  sent request hrequest := by cases hrequest
  awaited left member hphase := by cases hphase
  returned member hphase := by cases hphase

theorem Registry.Ordered.readEpoch {s : Registry V} (hs : s.Ordered codec pre) {node : String}
    {previous revision : Nat}
    (hread : Registering.readEpoch codec pre s.store.items node = .ok (previous, revision)) :
    previous = lastEpoch s.registered node ∧
      revision = epochRevision pre s.store.items node ∧ revision ≤ s.store.revision := by
  have hepoch := hs.epochs node
  unfold Registering.readEpoch at hread
  unfold lastEpoch epochRevision
  cases hitem : s.store.items[epochKey pre node]? with
  | none =>
    rw [hitem] at hread hepoch
    cases hread
    rw [Option.map_none, eq_comm, Option.map_eq_none_iff] at hepoch
    simp [hepoch]
  | some item =>
    rw [hitem] at hread hepoch
    rw [Option.map_some, eq_comm, Option.map_eq_some_iff] at hepoch
    obtain ⟨member, hlast, hvalue⟩ := hepoch
    obtain ⟨-, hvalue⟩ := Prod.mk.inj hvalue
    have hbound := hs.bounds member (lastRegistered_eq_some hlast).1
    simp only [← hvalue, codec.epoch_roundTrip _ hbound, Except.map, Except.ok.injEq,
      Prod.mk.injEq] at hread
    obtain ⟨rfl, rfl⟩ := hread
    refine ⟨by simp [hlast], by simp, (hs.revisions _ _ hitem).2.1⟩

theorem Registry.Ordered.afterEpoch {s : Registry V} (hs : s.Ordered codec pre)
    {call : Registering V} (hcall : call.Consistent codec pre s.store s.registered)
    (clusterId left : Nat) :
    (call.afterEpoch codec pre clusterId s.store.items left).Consistent codec pre s.store
      s.registered := by
  unfold Registering.afterEpoch
  split
  · exact hcall.reject _
  split
  · exact hcall.reject _
  next previous revision hread =>
  obtain ⟨hprevious, hrevision, hle⟩ := hs.readEpoch hread
  split
  next hbound =>
    dsimp only
    split
    · exact hcall.reject _
    next value hvalue =>
    exact
      { sent := by
          rintro request ⟨⟩
          exact ⟨rfl, hbound, value, revision, hvalue, rfl, hle, fun _ => by
            rw [← hprevious]
            rfl⟩
        awaited := by
          rintro left' member ⟨⟩
          refine ⟨rfl, ?_, ?_⟩
          · rintro request ⟨⟩
            rfl
          · intro hreply
            cases hreply
        returned := by
          intro member hphase
          cases hphase }
  next => exact hcall.reject _

theorem Registering.Consistent.afterTransaction {store : Kv String V} {registered : List Member}
    {call : Registering V} (hcall : call.Consistent codec pre store registered) (clusterId : Nat)
    {left : Nat} {member : Member} (hphase : call.phase = .transacting left member)
    {reply : Except String Bool} (hreply : call.reply = some reply) :
    (call.afterTransaction clusterId left member reply).Consistent codec pre store registered := by
  obtain ⟨hnext, -, hstored⟩ := hcall.awaited left member hphase
  unfold Registering.afterTransaction
  split
  · exact hcall.reject _
  next succeeded =>
  split
  · exact hcall.reject _
  split
  next hsucceeded =>
    apply hcall.setPhase
    · intro left' member' hphase'
      cases hphase'
    · rintro member' ⟨⟩
      rw [hsucceeded] at hreply
      refine ⟨hstored hreply, ?_⟩
      rw [hnext]
      exact ⟨rfl, rfl, rfl⟩
  next =>
    apply hcall.setPhase
    · intro left' member' hphase'
      cases hphase'
    · intro member' hphase'
      cases hphase'

theorem RegisterPhase.enter_ne_transacting (count left : Nat) (member : Member) :
    RegisterPhase.enter count ≠ .transacting left member := by
  intro hphase
  cases count <;> cases hphase

theorem RegisterPhase.enter_ne_ok (count : Nat) (member : Member) :
    RegisterPhase.enter count ≠ .returned (.ok member) := by
  intro hphase
  cases count <;> cases hphase

theorem Registry.Ordered.afterMember {s : Registry V} (hs : s.Ordered codec pre)
    {call : Registering V} (hcall : call.Consistent codec pre s.store s.registered)
    (clusterId left : Nat) :
    (call.afterMember codec pre clusterId s.store.items left).Consistent codec pre s.store
      s.registered := by
  unfold Registering.afterMember
  split
  · exact hcall.reject _
  split
  next =>
    apply hcall.setPhase
    · exact fun left' member => RegisterPhase.enter_ne_transacting left left' member
    · exact fun member hphase => absurd hphase (RegisterPhase.enter_ne_ok left member)
  next item hitem =>
  split
  · exact hcall.reject _
  next stored hstored =>
  dsimp only
  split
  next hsame =>
    obtain ⟨member, hlast, hvalue, hlease, -⟩ := hs.members call.node item hitem
    -- the record decodes to the member it was made from
    rw [codec.member_roundTrip member _ hvalue] at hstored
    cases hstored
    apply hcall.setPhase
    · intro left' member' hphase'
      cases hphase'
    · rintro member' ⟨⟩
      obtain ⟨hnode, howner, hlease', -⟩ := hsame
      refine ⟨?_, hnode, howner, hlease'⟩
      rw [hlease]
      exact (lastRegistered_eq_some hlast).1
  next => exact hcall.reject _

/-! ### The coordinator -/

theorem epoch_le_lastEpoch {registered : List Member}
    (hincreasing : registered.Pairwise fun earlier later =>
      earlier.nodeId = later.nodeId → earlier.epoch < later.epoch)
    {member : Member} (hmem : member ∈ registered) :
    member.epoch ≤ lastEpoch registered member.nodeId := by
  induction registered using List.reverseRecOn with
  | nil => cases hmem
  | append_singleton registered last ih =>
    obtain ⟨hfirst, -, hlast⟩ := List.pairwise_append.mp hincreasing
    rw [lastEpoch, lastRegistered_concat]
    split
    next hsame =>
      obtain hmem | hmem := List.mem_append.mp hmem
      · exact (hlast member hmem last (mem_singleton_self _) hsame.symm).le
      · rw [List.mem_singleton.mp hmem]
        exact le_rfl
    next hother =>
      obtain hmem | hmem := List.mem_append.mp hmem
      · exact ih hfirst hmem
      · exact absurd (congrArg Member.nodeId (List.mem_singleton.mp hmem)).symm hother

theorem Registry.Ordered.expire {s : Registry V} (hs : s.Ordered codec pre) {lease : Int}
    (hlease : lease ∈ s.leases) :
    { s with leases := s.leases.erase lease, store := s.store.expire lease }.Ordered codec pre := by
  have hitem : ∀ (key : String) (item : Item V), (s.store.expire lease).items[key]? = some item →
      s.store.items[key]? = some item := by
    intro key item hfound
    rw [Kv.getElem?_expire, Option.filter_eq_some_iff] at hfound
    exact hfound.1
  have hepoch : ∀ node, (s.store.expire lease).items[epochKey pre node]? =
      s.store.items[epochKey pre node]? := by
    intro node
    rw [Kv.getElem?_expire]
    cases hfound : s.store.items[epochKey pre node]? with
    | none => rfl
    | some item =>
      have hmap := hs.epochs node
      rw [hfound, Option.map_some, eq_comm, Option.map_eq_some_iff] at hmap
      obtain ⟨member, -, hvalue⟩ := hmap
      have hne : item.lease ≠ lease := by
        rw [← (Prod.mk.inj hvalue).1]
        exact (hs.leases lease hlease).symm
      simp [Option.filter_some, hne]
  have hadvances : Advances pre s.store s.registered (s.store.expire lease) s.registered :=
    { revision := Kv.revision_le_commit _
      stored := List.Subset.refl _
      epoch := fun node => .inr ⟨by rw [epochRevision, hepoch, epochRevision], rfl⟩ }
  exact
    { hs with
      revisions := fun key item hfound => by
        obtain ⟨hpositive, hle, hversion⟩ := hs.revisions key item (hitem key item hfound)
        exact ⟨hpositive, hle.trans hadvances.revision, hversion⟩
      leases := fun other hother => hs.leases other (mem_of_mem_erase hother)
      epochs := fun node => by
        rw [hepoch]
        exact hs.epochs node
      members := fun node item hfound => hs.members node item (hitem _ item hfound)
      calls := fun call hcall => (hs.calls call hcall).mono hadvances }

theorem Registry.Ordered.installFormat {s : Registry V} (hs : s.Ordered codec pre) (value : V) :
    { s with store := s.store.commit [.put (formatKey pre) value 0] }.Ordered codec pre := by
  have hepoch : ∀ node, (s.store.commit [.put (formatKey pre) value 0]).items[epochKey pre node]? =
      s.store.items[epochKey pre node]? := by
    intro node
    rw [Kv.getElem?_commit_single, if_neg formatKey_ne_epochKey]
  exact
    { hs with
      revisions := fun key item hfound => by
        dsimp only at hfound
        rw [Kv.getElem?_commit_single] at hfound
        split at hfound
        next =>
          cases hfound
          exact ⟨Nat.succ_pos _, le_rfl, Nat.succ_pos _⟩
        next =>
          obtain ⟨hpositive, hle, hversion⟩ := hs.revisions key item hfound
          exact ⟨hpositive, hle.trans (Nat.le_succ _), hversion⟩
      epochs := fun node => by
        rw [hepoch]
        exact hs.epochs node
      members := fun node item hfound => by
        dsimp only at hfound
        rw [Kv.getElem?_commit_single, if_neg formatKey_ne_memberKey] at hfound
        exact hs.members node item hfound
      calls := fun call hcall => by
        refine (hs.calls call hcall).mono ⟨Nat.le_succ _, List.Subset.refl _, fun node => .inr ?_⟩
        exact ⟨by rw [epochRevision, hepoch, epochRevision], rfl⟩ }

theorem Registry.Ordered.store {s : Registry V} (hs : s.Ordered codec pre) {call : Registering V}
    {request : RegisterRequest V} (hsent : call.Sent codec pre s.store s.registered request)
    [DecidableEq V] (hholds : request.txn.comparisons.all (·.holds s.store.items) = true) :
    { s with
      store := s.store.commit request.txn.mutations
      registered := s.registered ++ [request.member] }.Ordered codec pre := by
  obtain ⟨hnext, hbound, value, revision, hvalue, htxn, -, hepoch⟩ := hsent
  have hnode : request.member.nodeId = call.node := by
    rw [hnext]
    rfl
  have hlease : request.member.lease = call.lease := by
    rw [hnext]
    rfl
  simp only [htxn, Registering.transaction, all_cons, all_nil, Bool.and_true,
    Bool.and_eq_true, Comparison.holds, decide_eq_true_eq] at hholds
  obtain ⟨-, -, hversion, hrevision⟩ := hholds
  have hsuccessor := hepoch hrevision
  have habsent : s.store.items[memberKey pre call.node]? = none := by
    cases hfound : s.store.items[memberKey pre call.node]? with
    | none => rfl
    | some item =>
      have hpositive := (hs.revisions _ _ hfound).2.2
      rw [hfound, Option.elim_some] at hversion
      omega
  have hitems : ∀ key, (s.store.commit request.txn.mutations).items[key]? =
      if epochKey pre call.node = key then
        some ⟨codec.epochToString request.member.epoch, 0, s.store.revision + 1,
          s.store.items[key]?.elim 0 (·.version) + 1⟩
      else if memberKey pre call.node = key then
        some ⟨value, call.lease, s.store.revision + 1, s.store.items[key]?.elim 0 (·.version) + 1⟩
      else s.store.items[key]? := by
    intro key
    rw [htxn]
    exact Kv.getElem?_commit_pair epochKey_ne_memberKey key
  have hadvanced : (s.store.commit request.txn.mutations).revision = s.store.revision + 1 := by
    rw [htxn]
    rfl
  exact
    { hs with
      revisions := fun key item hfound => by
        dsimp only at hfound ⊢
        rw [hitems] at hfound
        rw [hadvanced]
        split at hfound
        next =>
          cases hfound
          exact ⟨Nat.succ_pos _, le_rfl, Nat.succ_pos _⟩
        split at hfound
        next =>
          cases hfound
          exact ⟨Nat.succ_pos _, le_rfl, Nat.succ_pos _⟩
        next =>
          obtain ⟨hpositive, hle, hversion⟩ := hs.revisions key item hfound
          exact ⟨hpositive, hle.trans (Nat.le_succ _), hversion⟩
      epochs := fun node => by
        dsimp only
        rw [hitems, lastRegistered_concat, hnode]
        by_cases hsame : call.node = node
        · subst hsame
          simp
        · rw [if_neg (mt epochKey_inj.mp hsame), if_neg epochKey_ne_memberKey.symm, if_neg hsame]
          exact hs.epochs node
      bounds := fun member hmem => by
        obtain hmem | hmem := List.mem_append.mp hmem
        · exact hs.bounds member hmem
        · rw [List.mem_singleton.mp hmem]
          exact hbound
      members := fun node item hfound => by
        dsimp only at hfound ⊢
        rw [hitems, if_neg epochKey_ne_memberKey] at hfound
        rw [lastRegistered_concat, hnode]
        by_cases hsame : call.node = node
        · subst hsame
          rw [if_pos rfl, habsent] at hfound
          cases hfound
          exact ⟨request.member, if_pos rfl, hvalue, hlease.symm, rfl⟩
        · rw [if_neg (mt memberKey_inj.mp hsame)] at hfound
          rw [if_neg hsame]
          exact hs.members node item hfound
      increasing := by
        refine List.pairwise_append.mpr ⟨hs.increasing, pairwise_singleton _ _, ?_⟩
        intro earlier hearlier later hlater hsame
        obtain rfl := List.mem_singleton.mp hlater
        have hle := epoch_le_lastEpoch hs.increasing hearlier
        rw [hsame, hnode] at hle
        omega
      calls := fun other hother => by
        refine (hs.calls other hother).mono ⟨by dsimp only; omega, by simp, fun node => ?_⟩
        by_cases hsame : call.node = node
        · subst hsame
          left
          rw [epochRevision, hitems, if_pos rfl]
          exact Nat.lt_succ_self _
        · right
          rw [epochRevision, hitems, if_neg (mt epochKey_inj.mp hsame),
            if_neg epochKey_ne_memberKey.symm, epochRevision, lastEpoch, lastRegistered_concat, hnode,
            if_neg hsame]
          exact ⟨rfl, rfl⟩ }

theorem Registering.Consistent.settled {store : Kv String V} {registered : List Member}
    {call : Registering V} (hcall : call.Consistent codec pre store registered)
    {reply : Option (Except String Bool)}
    (hreply : reply = some (.ok true) →
      ∀ left member, call.phase = .transacting left member → member ∈ registered) :
    { call with request := none, reply := reply }.Consistent codec pre store registered where
  sent request hrequest := by cases hrequest
  awaited left member hphase := by
    refine ⟨(hcall.awaited left member hphase).1, ?_, fun hok => hreply hok left member hphase⟩
    intro request hrequest
    cases hrequest
  returned := hcall.returned

section Steps

variable [DecidableEq V] {clusterId : Nat}

theorem Registry.Ordered.execute {s : Registry V} (hs : s.Ordered codec pre) {i : Nat}
    {call : Registering V} (hcall : s.calls[i]? = some call) {request : RegisterRequest V}
    (hrequest : call.request = some request) :
    { (s.execute request).2 with
      calls := (s.execute request).2.calls.set i { call with
        request := none
        reply := some (s.execute request).1 } }.Ordered codec pre := by
  have hconsistent := hs.call hcall
  unfold Registry.execute
  split
  next =>
    apply hs.setCall
    apply hconsistent.settled
    intro hreply
    cases hreply
  next hholds =>
  rw [Bool.not_eq_true', Bool.not_eq_false] at hholds
  split
  next =>
    have hstored := hs.store (hconsistent.sent request hrequest) hholds
    apply hstored.setCall
    apply (hstored.call hcall).settled
    intro _ left member hphase
    rw [← (hconsistent.awaited left member hphase).2.1 request hrequest]
    exact mem_append_right _ (mem_singleton_self _)
  next =>
    apply hs.setCall
    apply hconsistent.settled
    intro hreply
    cases hreply

theorem Registry.Ordered.next {s s' : Registry V} (hs : s.Ordered codec pre) {step : RegistryStep V}
    (hnext : s.next codec pre clusterId step = some s') : s'.Ordered codec pre := by
  cases step <;> rw [Registry.next] at hnext
  case grant lease =>
    split at hnext
    · cases hnext
    next hfresh =>
    cases hnext
    refine { hs with leases := fun other hother => ?_ }
    obtain rfl | hold := List.mem_cons.mp hother
    · exact fun hzero => hfresh (.inl hzero)
    · exact hs.leases other hold
  case expire lease =>
    split at hnext
    next hlease =>
      cases hnext
      exact hs.expire (by simpa using hlease)
    next => cases hnext
  case installFormat value =>
    split at hnext
    · cases hnext
      exact hs.installFormat value
    · cases hnext
      exact hs
  case register node owner lease expectedCluster format =>
    cases hnext
    refine { hs with calls := fun call hcall => ?_ }
    obtain hold | hnew := List.mem_append.mp hcall
    · exact hs.calls call hold
    · rw [List.mem_singleton.mp hnew]
      exact consistent_new _ _ node owner lease expectedCluster format
  case readEpoch i =>
    split at hnext
    · cases hnext
    next call hcall =>
    split at hnext
    next left hphase =>
      cases hnext
      exact hs.setCall i (hs.afterEpoch (hs.call hcall) clusterId left)
    next => cases hnext
  case execute i =>
    split at hnext
    · cases hnext
    next call hcall =>
    split at hnext
    · cases hnext
    next request hrequest =>
    cases hnext
    exact hs.execute hcall hrequest
  case lose i =>
    rw [Option.map_eq_some_iff] at hnext
    obtain ⟨call, hcall, rfl⟩ := hnext
    apply hs.setCall
    have hconsistent := hs.call hcall
    refine { hconsistent with sent := fun request hrequest => ?_, awaited := ?_ }
    · cases hrequest
    · intro left member hphase
      obtain ⟨hmember, -, hstored⟩ := hconsistent.awaited left member hphase
      refine ⟨hmember, fun request hrequest => ?_, hstored⟩
      cases hrequest
  case answer i =>
    split at hnext
    · cases hnext
    next call hcall =>
    split at hnext
    next left member reply hphase hreply =>
      cases hnext
      exact hs.setCall i ((hs.call hcall).afterTransaction clusterId hphase hreply)
    next => cases hnext
  case readMember i =>
    split at hnext
    · cases hnext
    next call hcall =>
    split at hnext
    next left hphase =>
      cases hnext
      exact hs.setCall i (hs.afterMember (hs.call hcall) clusterId left)
    next => cases hnext
  case giveUp i error =>
    split at hnext
    · cases hnext
    next call hcall =>
    split at hnext
    · cases hnext
    next =>
      cases hnext
      exact hs.setCall i ((hs.call hcall).reject _)

theorem ordered_of_reachable {s : Registry V}
    (hreach : (Registry.machine codec pre clusterId).Reachable s) : s.Ordered codec pre := by
  refine hreach.invariant (I := fun s => s.Ordered codec pre) ?_ ?_
  · rintro s rfl
    exact ordered_new
  · exact fun s step s' hs hnext => hs.next hnext

/-- **Epochs.** Whatever calls, lost messages and leases do: the record of a node is the last member
that was registered for it, no two live records are of one node, each registration of a node has a
larger epoch than every one before it, and a member that a call returns is one that was stored for
it, above every earlier and below every later one of its node. A call that finds its own record
returns the registration that is already there. -/
theorem registration_epochs {s : Registry V}
    (hreach : (Registry.machine codec pre clusterId).Reachable s) :
    (∀ (node : String) (item : Item V), s.store.items[memberKey pre node]? = some item →
      ∃ member, lastRegistered s.registered node = some member ∧
        codec.memberToVec member = .ok item.value ∧ item.lease = member.lease ∧ item.version = 1) ∧
    (∀ (node₁ node₂ : String) (item₁ item₂ : Item V) (member₁ member₂ : Member),
      s.store.items[memberKey pre node₁]? = some item₁ →
      s.store.items[memberKey pre node₂]? = some item₂ →
      codec.memberFromSlice item₁.value = .ok member₁ →
      codec.memberFromSlice item₂.value = .ok member₂ →
      member₁.nodeId = member₂.nodeId → node₁ = node₂) ∧
    (s.registered.Pairwise fun earlier later =>
      earlier.nodeId = later.nodeId → earlier.epoch < later.epoch) ∧
    ∀ call ∈ s.calls, ∀ member, call.phase = .returned (.ok member) →
      member ∈ s.registered ∧ member.nodeId = call.node ∧ member.owner = call.owner ∧
        member.lease = call.lease ∧ ∃ before after, s.registered = before ++ member :: after ∧
          (∀ other ∈ before, other.nodeId = member.nodeId → other.epoch < member.epoch) ∧
          ∀ other ∈ after, other.nodeId = member.nodeId → member.epoch < other.epoch := by
  have hs := ordered_of_reachable hreach
  have hnode : ∀ (node : String) (item : Item V) (member : Member),
      s.store.items[memberKey pre node]? = some item →
      codec.memberFromSlice item.value = .ok member → member.nodeId = node := by
    intro node item member hitem hmember
    obtain ⟨stored, hlast, hvalue, -⟩ := hs.members node item hitem
    rw [codec.member_roundTrip stored _ hvalue] at hmember
    cases hmember
    exact (lastRegistered_eq_some hlast).2
  refine ⟨hs.members, ?_, hs.increasing, fun call hcall member hreturned => ?_⟩
  · intro node₁ node₂ item₁ item₂ member₁ member₂ hitem₁ hitem₂ hmember₁ hmember₂ hsame
    rw [← hnode _ _ _ hitem₁ hmember₁, ← hnode _ _ _ hitem₂ hmember₂, hsame]
  · obtain ⟨hmem, hof, howner, hlease⟩ := (hs.calls call hcall).returned member hreturned
    obtain ⟨before, after, hsplit⟩ := append_of_mem hmem
    have hincreasing := hs.increasing
    rw [hsplit, pairwise_append, pairwise_cons] at hincreasing
    obtain ⟨-, ⟨hlater, -⟩, hearlier⟩ := hincreasing
    exact ⟨hmem, hof, howner, hlease, before, after, hsplit,
      fun other hother => hearlier other hother member mem_cons_self,
      fun other hother hsame => hlater other hother hsame.symm⟩

end Steps

/-- The reply of a transaction is lost, its lease ends, and the node registers again. -/
def reregistration : List (RegistryStep PlainValue) :=
  let format : ClusterFormat PlainValue := ⟨inventoryStreamProtocol, 9, 2, .format "f" 9⟩
  [.installFormat (.format "f" 9), .grant 7,
    .register "a" ⟨"a:7000", 1⟩ 7 3 format, .readEpoch 0, .execute 0, .giveUp 0 "timed out",
    .register "a" ⟨"a:7000", 1⟩ 7 3 format, .readEpoch 1, .execute 1, .answer 1, .readMember 1,
    .expire 7, .grant 8,
    .register "a" ⟨"a:7000", 2⟩ 8 3 format, .readEpoch 2, .execute 2, .answer 2]

def Registering.returnedEpoch {V : Type} (call : Registering V) : Option Nat :=
  match call.phase with
  | .returned (.ok member) => some member.epoch
  | _ => none

theorem registration_epochs_again :
    ∃ s, (Registry.machine plainCodec "/c/" 3).Reachable s ∧
      s.registered.map (·.epoch) = [1, 2] ∧
      s.calls.map (·.returnedEpoch) = [none, some 1, some 2] ∧
      (s.registered.Pairwise fun earlier later =>
        earlier.nodeId = later.nodeId → earlier.epoch < later.epoch) := by
  have hrun : (reregistration.foldlM (Registry.next plainCodec "/c/" 3) .new).any (fun s => decide
      (s.registered.map (·.epoch) = [1, 2] ∧
        s.calls.map (·.returnedEpoch) = [none, some 1, some 2])) = true := by
    decide +kernel
  obtain ⟨s, hreach, hepochs, hreturned⟩ :=
    (Registry.machine plainCodec "/c/" 3).exists_reachable rfl rfl hrun
  exact ⟨s, hreach, hepochs, hreturned, (registration_epochs hreach).2.2.1⟩

end Registrations

end OrbitKV
