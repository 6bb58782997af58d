import Mathlib.Tactic
import OrbitKV.Storage.Uring

/-!
# What the io_uring shard answers

Every context the shard took is either answered or boxed behind an entry still in the ring.
-/

namespace OrbitKV.UringShard

open List

variable {ioDepth : Nat} {send : Cqe → Except IoError Nat} {s t : UringShard} {batch : List Cqe}

def Running (s : UringShard) : Prop :=
  s.phase = .preparing ∨ s.phase = .submitting

structure Accounted (s : UringShard) : Prop where
  distinct : (s.submitted.map (·.1.userData)).Nodup
  taken : s.taken.Perm (s.sent.map (·.ctx) ++ s.submitted.map (·.2))
  inflight : s.Running → s.inflight = s.submitted.length
  shutDown : s.phase = .shutDown → s.submitted = []

theorem complete_ctx (ctx : IoCtx) (result : Except IoError Nat) :
    (ctx.complete result).ctx = ctx := by
  cases result <;> rfl

structure Drained (s t : UringShard) (batch : List Cqe) : Prop where
  perm : (t.sent.map (·.ctx) ++ t.submitted.map (·.2)).Perm
    (s.sent.map (·.ctx) ++ s.submitted.map (·.2))
  length : t.submitted.length + batch.length = s.submitted.length
  left : t.submitted =
    s.submitted.filter fun entry => ∀ cqe ∈ batch, entry.1.userData ≠ cqe.userData
  inflight : t.inflight = s.inflight
  taken : t.taken = s.taken

theorem erase_of_distinct {entries : List (Sqe × IoCtx)}
    (hdistinct : (entries.map (·.1.userData)).Nodup) {entry : Sqe × IoCtx} (hmem : entry ∈ entries) :
    entries.erase entry = entries.filter (·.1.userData ≠ entry.1.userData) := by
  rw [(List.Nodup.of_map _ hdistinct).erase_eq_filter]
  refine filter_congr fun other hother => ?_
  rw [Bool.eq_iff_iff, bne_iff_ne, decide_eq_true_eq, not_iff_not]
  exact ⟨fun heq => heq ▸ rfl, fun hdata => inj_on_of_nodup_map hdistinct hother hmem hdata⟩

theorem recover_drained {cqe : Cqe} (hdistinct : (s.submitted.map (·.1.userData)).Nodup)
    (hdata : cqe.userData ≠ 0) (hnext : recover send s cqe = some t) : Drained s t [cqe] := by
  unfold recover at hnext
  rw [if_neg hdata] at hnext
  split at hnext
  · cases hnext
  next entry hentry =>
    cases hnext
    have hmem := mem_of_find?_eq_some hentry
    have hdata : entry.1.userData = cqe.userData := by simpa using find?_some hentry
    refine ⟨?_, ?_, ?_, rfl, rfl⟩
    · rw [map_append, append_assoc, map_singleton, complete_ctx]
      exact ((perm_cons_erase hmem).map Prod.snd).symm.append_left _
    · exact length_erase_add_one hmem
    · simp [erase_of_distinct hdistinct hmem, hdata]

theorem Drained.distinct (hdrained : Drained s t batch)
    (hdistinct : (s.submitted.map (·.1.userData)).Nodup) :
    (t.submitted.map (·.1.userData)).Nodup :=
  hdrained.left ▸ hdistinct.sublist (List.filter_sublist.map _)

theorem foldlM_recover_drained (hdistinct : (s.submitted.map (·.1.userData)).Nodup)
    (hdata : ∀ cqe ∈ batch, cqe.userData ≠ 0) (hnext : batch.foldlM (recover send) s = some t) :
    Drained s t batch := by
  induction batch generalizing s with
  | nil =>
    obtain rfl : s = t := by simpa using hnext
    exact ⟨.refl _, rfl, by simp, rfl, rfl⟩
  | cons cqe batch ih =>
    obtain ⟨middle, hfirst, hrest⟩ := Option.bind_eq_some_iff.mp hnext
    have hfirst := recover_drained hdistinct (hdata _ mem_cons_self) hfirst
    have hrest := ih (hfirst.distinct hdistinct)
      (fun cqe hcqe => hdata cqe (mem_cons_of_mem _ hcqe)) hrest
    refine ⟨hrest.perm.trans hfirst.perm, ?_, ?_, hrest.inflight.trans hfirst.inflight,
      hrest.taken.trans hfirst.taken⟩
    · rw [← hfirst.length, ← hrest.length, length_cons, Nat.add_assoc]
      rfl
    · rw [hrest.left, hfirst.left, filter_filter]
      exact filter_congr fun entry _ => by simp [Bool.and_comm]

theorem Accounted.drained (hs : s.Accounted) (hnext : s.drain send batch = some t) :
    Drained s t batch := by
  unfold drain at hnext
  split_ifs at hnext with hdata
  exact foldlM_recover_drained hs.distinct hdata hnext

theorem Accounted.afterLoop (hs : s.Accounted) (hphase : s.phase = .preparing) (closed : Bool) :
    Accounted (afterLoop { s with channelClosed := closed }) := by
  have hinflight := hs.inflight (.inl hphase)
  refine ⟨hs.distinct, hs.taken, fun _ => hinflight, fun hshut => ?_⟩
  simp only [UringShard.afterLoop] at hshut
  split_ifs at hshut with hreturn
  exact eq_nil_of_length_eq_zero (hinflight ▸ hreturn.2)

theorem Accounted.push (hs : s.Accounted) (hphase : s.phase = .preparing) (ctx : IoCtx)
    {data : Nat} (hfresh : ∀ entry ∈ s.submitted, entry.1.userData ≠ data) (pushed : Bool) :
    Accounted (s.push ctx data pushed) := by
  have hinflight := hs.inflight (.inl hphase)
  unfold UringShard.push
  cases pushed with
  | true =>
    refine ⟨?_, ?_, fun _ => ?_, fun hshut => absurd (hphase.symm.trans hshut) nofun⟩
    · rw [if_pos rfl, map_append]
      refine hs.distinct.append (nodup_singleton _) (List.disjoint_singleton.mpr fun hmem => ?_)
      obtain ⟨entry, hentry, hdata⟩ := List.mem_map.mp hmem
      exact hfresh entry hentry hdata
    · rw [if_pos rfl, map_append, ← append_assoc]
      exact hs.taken.append_right _
    · simp [hinflight]
  | false =>
    refine ⟨hs.distinct, ?_, fun _ => hinflight, fun hshut => absurd (hphase.symm.trans hshut) nofun⟩
    rw [if_neg nofun, map_append, append_assoc]
    exact (hs.taken.append_right _).trans (by
      rw [append_assoc]
      exact List.perm_append_comm.append_left _)

theorem Accounted.next {turn : UringTurn} (hs : s.Accounted)
    (hnext : s.next ioDepth turn = some t) : t.Accounted := by
  cases turn with
  | received ctx data pushed =>
    obtain ⟨hready, hnext⟩ := Option.ite_none_right_eq_some.mp hnext
    cases hnext
    exact hs.push hready.1.1 ctx hready.2.2 pushed
  | disconnected =>
    obtain ⟨hready, hnext⟩ := Option.ite_none_right_eq_some.mp hnext
    cases hnext
    exact hs.afterLoop hready.1 true
  | empty =>
    obtain ⟨hready, hnext⟩ := Option.ite_none_right_eq_some.mp hnext
    cases hnext
    exact hs.afterLoop hready.1.1 s.channelClosed
  | prepared =>
    obtain ⟨hready, hnext⟩ := Option.ite_none_right_eq_some.mp hnext
    cases hnext
    exact hs.afterLoop hready.1 s.channelClosed
  | completions batch =>
    obtain ⟨hphase, hnext⟩ := Option.ite_none_right_eq_some.mp hnext
    obtain ⟨drained, hdrain, rfl⟩ := Option.map_eq_some_iff.mp hnext
    have hdrained := hs.drained hdrain
    refine ⟨hdrained.distinct hs.distinct, hdrained.taken ▸ hs.taken.trans hdrained.perm.symm,
      fun _ => ?_, nofun⟩
    simp only [hdrained.inflight, hs.inflight (.inr hphase), ← hdrained.length, Nat.add_sub_cancel]
  | submitError error batch =>
    obtain ⟨hphase, hnext⟩ := Option.ite_none_right_eq_some.mp hnext
    obtain ⟨drained, hdrain, rfl⟩ := Option.map_eq_some_iff.mp hnext
    have hdrained := hs.drained hdrain
    refine ⟨hdrained.distinct hs.distinct, hdrained.taken ▸ hs.taken.trans hdrained.perm.symm, ?_,
      nofun⟩
    rintro (hphase | hphase) <;> cases hphase

theorem Accounted.reachable (hs : (machine ioDepth).Reachable s) : s.Accounted :=
  hs.invariant (I := Accounted)
    (by rintro _ rfl; exact ⟨.nil, .nil, fun _ => rfl, fun _ => rfl⟩) fun _ _ _ hs => hs.next

theorem Accounted.answered_iff (hs : s.Accounted) :
    (s.sent.map (·.ctx)).Perm s.taken ↔ s.submitted = [] := by
  refine ⟨fun hperm => ?_, fun hempty => by simpa [hempty] using hs.taken.symm⟩
  have hlength := (hperm.trans hs.taken).length_eq
  rw [length_append, length_map, length_map] at hlength
  exact eq_nil_of_length_eq_zero (by omega)

/-- **Every request is answered, once, unless `submit_and_wait` fails.** While `run` is under way
`inflight` counts the contexts submitted and not completed. At the graceful return the contexts
answered are the contexts taken. At the return after an error of `submit_and_wait` they are exactly
if the completion queue held a completion for every entry that was outstanding before. -/
theorem uring_shard_answers_all (hs : (machine ioDepth).Reachable s) :
    (s.Running → s.inflight = s.submitted.length) ∧
      (s.phase = .shutDown → (s.sent.map (·.ctx)).Perm s.taken) ∧
      ∀ error batch t, s.next ioDepth (.submitError error batch) = some t →
        ((t.sent.map (·.ctx)).Perm t.taken ↔
          ∀ entry ∈ s.submitted, ∃ cqe ∈ batch, cqe.userData = entry.1.userData) := by
  have hs := Accounted.reachable hs
  refine ⟨hs.inflight, fun hshut => hs.answered_iff.mpr (hs.shutDown hshut), ?_⟩
  intro error batch t hnext
  rw [(hs.next hnext).answered_iff]
  obtain ⟨-, hnext⟩ := Option.ite_none_right_eq_some.mp hnext
  obtain ⟨drained, hdrain, rfl⟩ := Option.map_eq_some_iff.mp hnext
  change drained.submitted = [] ↔ _
  rw [(hs.drained hdrain).left, filter_eq_nil_iff]
  exact forall₂_congr fun entry _ => by simp [eq_comm]

def oneRead : IoCtx := ⟨.readv, 3, 1, 0, [(4096, 512)], 512⟩

/-- One request is read and the channel closes; one is answered as `submit_and_wait` fails. -/
theorem uring_shard_answers_all_one_read :
    (∃ s, (machine 4).Reachable s ∧ s.phase = .shutDown ∧ s.taken = [oneRead] ∧
      (s.sent.map (·.ctx)).Perm s.taken) ∧
    ∃ s t, (machine 4).Reachable s ∧ s.next 4 (.submitError "EINTR" [⟨64, 512⟩]) = some t ∧
      t.taken = [oneRead] ∧ (t.sent.map (·.ctx)).Perm t.taken := by
  have hrun : [.received oneRead 64 true, .empty, .completions [⟨64, 512⟩], .disconnected].foldlM
      (next 4) new = some _ := rfl
  have hs : (machine 4).Reachable _ := (Machine.Reachable.of_init rfl).foldlM hrun
  have hbefore : [.received oneRead 64 true, .empty].foldlM (next 4) new = some _ := rfl
  have hs' : (machine 4).Reachable _ := (Machine.Reachable.of_init rfl).foldlM hbefore
  refine ⟨⟨_, hs, rfl, rfl, (uring_shard_answers_all hs).2.1 rfl⟩, _, _, hs', rfl, rfl, ?_⟩
  exact ((uring_shard_answers_all hs').2.2 "EINTR" [⟨64, 512⟩] _ rfl).mpr (by
    simp [afterLoop, push, new, IoCtx.sqe])

/-- A request is submitted, `submit_and_wait` fails with nothing in the completion queue, and `run`
returns without an answer for it. -/
theorem uring_shard_abandons_request :
    ∃ s, (machine 4).Reachable s ∧ s.phase = .submitFailed ∧ oneRead ∈ s.taken ∧ s.sent = [] := by
  have hrun : [.received oneRead 64 true, .empty, .submitError "Interrupted system call" []].foldlM
      (next 4) new = some _ := rfl
  have hs : (machine 4).Reachable _ := (Machine.Reachable.of_init rfl).foldlM hrun
  exact ⟨_, hs, rfl, mem_cons_self, rfl⟩

end OrbitKV.UringShard
