import OrbitKV.Python.LocalRestore
import Mathlib.Data.List.Perm.Basic

/-!
# The local Restore worker and its jobs

The worker leaves its loop when it has seen `stopping` and has nothing active; what it has not
received by then is lost.
-/

namespace OrbitKV

open List

open scoped List

theorem perm_swapRemove {α : Type} {xs : List α} {index : Nat} {x : α}
    (hx : xs[index]? = some x) : xs.Perm (x :: swapRemove xs index) := by
  obtain ⟨hindex, rfl⟩ := List.getElem?_eq_some_iff.mp hx
  have hne : xs ≠ [] := ne_nil_of_length_pos (by omega)
  obtain ⟨front, last, rfl⟩ : ∃ front last, xs = front ++ [last] :=
    ⟨xs.dropLast, xs.getLast hne, (dropLast_append_getLast hne).symm⟩
  have hswap : swapRemove (front ++ [last]) index = ((front ++ [last]).set index last).dropLast := by
    simp [swapRemove]
  rw [hswap]
  rcases Nat.lt_or_ge index front.length with hlt | hge
  · rw [set_append_left _ _ hlt, dropLast_concat, getElem_append_left hlt]
    calc front ++ [last]
        ~ last :: front := perm_append_singleton last front
      _ ~ last :: (front[index] :: front.eraseIdx index) :=
          (getElem_cons_eraseIdx_perm hlt).symm.cons last
      _ ~ front[index] :: (last :: front.eraseIdx index) := List.Perm.swap _ _ _
      _ ~ front[index] :: front.set index last := (set_perm_cons_eraseIdx hlt last).symm.cons _
  · obtain rfl : index = front.length := by
      simp only [length_append, length_singleton] at hindex
      omega
    simp

theorem fetchSubOne_of_pos {count : Nat} (hpos : 0 < count) : fetchSubOne count = count - 1 :=
  if_neg hpos.ne'

namespace LocalWorker

variable {s s' : LocalWorker} {l : LocalStep}

def completing (s : LocalWorker) : Nat :=
  match s.worker with
  | .completing _ => 1
  | _ => 0

/-! ### The counter and the jobs -/

structure Counted (s : LocalWorker) : Prop where
  pending_eq : s.pending + s.finished = s.reservations + s.accepted
  finished_eq : s.finished + s.completing = s.ready.length
  jobs : (List.range s.accepted).Perm (s.ready ++ s.active ++ s.queue)
  pending_le : s.pending ≤ maxPending

theorem Counted.length_eq (hs : s.Counted) :
    s.accepted = s.ready.length + s.active.length + s.queue.length := by
  have hlength := hs.jobs.length_eq
  simpa [Nat.add_assoc] using hlength

theorem counted_new : new.Counted where
  pending_eq := rfl
  finished_eq := rfl
  jobs := List.Perm.refl _
  pending_le := Nat.zero_le _

theorem Counted.congr (hs : s.Counted) (hreservations : s'.reservations = s.reservations)
    (hcompleting : s'.completing = s.completing) (hpending : s'.pending = s.pending)
    (hfinished : s'.finished = s.finished) (haccepted : s'.accepted = s.accepted)
    (hready : s'.ready = s.ready) (hactive : s'.active = s.active) (hqueue : s'.queue = s.queue) :
    s'.Counted where
  pending_eq := by
    rw [hpending, hfinished, hreservations, haccepted]
    exact hs.pending_eq
  finished_eq := by
    rw [hfinished, hcompleting, hready]
    exact hs.finished_eq
  jobs := by
    rw [haccepted, hready, hactive, hqueue]
    exact hs.jobs
  pending_le := by
    rw [hpending]
    exact hs.pending_le

theorem Counted.pending_pos (hs : s.Counted) (hgives : s.caller = .cancelling ∨ s.completing = 1) :
    0 < s.pending := by
  have hpending := hs.pending_eq
  have hfinished := hs.finished_eq
  have hlength := hs.length_eq
  rcases hgives with hcaller | hcompleting
  · simp only [reservations, hcaller] at hpending
    omega
  · omega

theorem Counted.call (hs : s.Counted) (hcall : s.call l = some s') : s'.Counted := by
  have hpending := hs.pending_eq
  have hle := hs.pending_le
  cases l <;> simp only [LocalWorker.call, reduceCtorEq] at hcall
  case reserve =>
    split_ifs at hcall with hphase hroom
    · cases hcall
      refine ⟨?_, hs.finished_eq, hs.jobs, hroom⟩
      simp only [reservations, hphase] at hpending ⊢
      omega
    · cases hcall
      exact hs
  case submit =>
    split_ifs at hcall with hphase hended hroom
    · cases hcall
      exact hs.congr (by simp [reservations, hphase]) rfl rfl rfl rfl rfl rfl rfl
    · cases hcall
      refine ⟨?_, hs.finished_eq, ?_, hle⟩
      · simp only [reservations, hphase] at hpending ⊢
        omega
      · rw [range_succ, ← append_assoc]
        exact hs.jobs.append_right _
  case cancelReservation =>
    split_ifs at hcall with hphase
    cases hcall
    have hpos := hs.pending_pos (.inl hphase)
    simp only [reservations, hphase] at hpending
    refine ⟨?_, hs.finished_eq, hs.jobs, ?_⟩ <;> simp only [reservations, fetchSubOne_of_pos hpos]
    all_goals omega
  all_goals
    split_ifs at hcall with hphase
    all_goals
      cases hcall
      exact hs.congr (by simp [reservations, hphase]) rfl rfl rfl rfl rfl rfl rfl

theorem Counted.work (hs : s.Counted) (hwork : s.work l = some s') : s'.Counted := by
  cases l <;> simp only [LocalWorker.work, reduceCtorEq] at hwork
  case receive =>
    split_ifs at hwork with hphase
    split at hwork
    next job rest hqueue =>
      cases hwork
      refine ⟨hs.pending_eq, ?_, ?_, hs.pending_le⟩
      · exact hs.finished_eq
      · have hjobs := hs.jobs
        rw [hqueue] at hjobs
        simpa [append_assoc] using hjobs
    · cases hwork
      exact hs.congr rfl (by simp [completing, hphase]) rfl rfl rfl rfl rfl rfl
  case advance response =>
    split at hwork
    next index hphase =>
      split at hwork
      · cases hwork
        exact hs.congr rfl (by simp [completing, hphase]) rfl rfl rfl rfl rfl rfl
      next job hjob =>
        split_ifs at hwork
        · cases hwork
          refine ⟨hs.pending_eq, ?_, ?_, hs.pending_le⟩
          · have hfinished := hs.finished_eq
            simp only [completing, hphase, Nat.add_zero] at hfinished
            simp [completing, hfinished]
          · refine hs.jobs.trans ?_
            apply List.Perm.append_right
            rw [append_assoc]
            exact (perm_swapRemove hjob).append_left _
        · cases hwork
          exact hs.congr rfl (by simp [completing, hphase]) rfl rfl rfl rfl rfl rfl
    · cases hwork
  case complete =>
    split at hwork
    next index hphase =>
      cases hwork
      have hpending := hs.pending_eq
      have hfinished := hs.finished_eq
      have hle := hs.pending_le
      have hpos := hs.pending_pos (.inr (by simp [completing, hphase]))
      simp only [completing, hphase] at hfinished
      refine ⟨?_, by simpa [completing] using hfinished, hs.jobs, ?_⟩ <;>
        simp only [fetchSubOne_of_pos hpos]
      · change s.pending - 1 + (s.finished + 1) = s.reservations + s.accepted
        omega
      · omega
    · cases hwork
  all_goals
    split_ifs at hwork with hphase
    all_goals
      cases hwork
      exact hs.congr rfl (by simp [completing, hphase]) rfl rfl rfl rfl rfl rfl

theorem next_cases (hnext : s.next l = some s') : s.call l = some s' ∨ s.work l = some s' := by
  unfold LocalWorker.next at hnext
  cases hcall : s.call l with
  | some t =>
    rw [hcall] at hnext
    exact .inl hnext
  | none =>
    rw [hcall] at hnext
    exact .inr hnext

theorem Counted.next (hs : s.Counted) (hnext : s.next l = some s') : s'.Counted := by
  rcases next_cases hnext with hcall | hwork
  · exact hs.call hcall
  · exact hs.work hwork

theorem Counted.queue_eq_nil (hs : s.Counted) (hpending : s.pending = 0) : s.queue = [] := by
  have hcount := hs.pending_eq
  have hfinished := hs.finished_eq
  have hlength := hs.length_eq
  exact List.length_eq_zero_iff.mp (by omega)

/-! ### Leaving the loop -/

def Left (s : LocalWorker) : Prop :=
  s.worker = .leaving ∨ s.worker = .releasing ∨ s.worker = .signalling ∨ s.worker = .reaping ∨
    s.worker = .ended

/-- The caller cannot hold a reservation once `stopping` is stored: it waits for the worker or has
dropped the handle, or it finds no executor. -/
def Kept (s : LocalWorker) : Prop :=
  s.caller = .awaiting ∨ s.caller = .dropping ∨ s.caller = .gone ∨
    s.executor = false ∧ s.caller ≠ .reserved

structure Drained (s : LocalWorker) : Prop where
  kept : s.stopping = true → s.Kept
  queue_nil : s.stopping = true → s.queue = []
  stopping_nil : s.caller = .stopping → s.queue = []
  dropped : s.disconnected = true ∨ s.caller = .dropping ∨ s.caller = .gone → s.stopping = true
  left : s.Left → s.stopping = true ∧ s.active = []
  executor_left : s.executor = false → s.Left
  tensors_left : s.tensors = false → s.Left
  executor_gone : s.worker = .releasing ∨ s.worker = .signalling → s.executor = false
  released : s.released = true → s.executor = false

theorem drained_new : new.Drained := by
  constructor <;> simp [new, Left]

section

variable (hs : s.Drained)
  {caller : CallerPhase}

include hs

theorem Drained.executor_eq_false (hstopping : s.stopping = true)
    (hcaller : s.caller ≠ .awaiting ∧ s.caller ≠ .dropping ∧ s.caller ≠ .gone) :
    s.executor = false ∧ s.caller ≠ .reserved := by
  obtain ⟨hawaiting, hdropping, hgone⟩ := hcaller
  rcases hs.kept hstopping with h | h | h | h
  · exact absurd h hawaiting
  · exact absurd h hdropping
  · exact absurd h hgone
  · exact h

theorem Drained.not_stopping (hcaller : s.caller = .reserved) : s.stopping ≠ true := by
  intro hstopping
  exact (hs.executor_eq_false hstopping (by simp [hcaller])).2 hcaller

theorem Drained.turn {pending : Nat}
    (hkept : s.stopping = true → { s with pending := pending, caller := caller }.Kept)
    (hnil : caller = .stopping → s.queue = [])
    (hgone : caller = .dropping ∨ caller = .gone → s.stopping = true) :
    { s with pending := pending, caller := caller }.Drained :=
  { hs with
    kept := hkept
    stopping_nil := hnil
    dropped := fun h => h.elim (fun hd => hs.dropped (.inl hd)) hgone }

theorem Drained.plainTurn (pending : Nat)
    (hfrom : s.caller ≠ .awaiting ∧ s.caller ≠ .dropping ∧ s.caller ≠ .gone)
    (hto : caller ≠ .reserved ∧ caller ≠ .stopping ∧ caller ≠ .dropping ∧ caller ≠ .gone) :
    { s with pending := pending, caller := caller }.Drained := by
  apply hs.turn
  · intro hstopping
    exact .inr (.inr (.inr ⟨(hs.executor_eq_false hstopping hfrom).1, hto.1⟩))
  · intro hcaller
    exact absurd hcaller hto.2.1
  · rintro (hcaller | hcaller)
    · exact absurd hcaller hto.2.2.1
    · exact absurd hcaller hto.2.2.2

theorem Drained.stopped (hnil : s.queue = []) (hcaller : caller = .awaiting ∨ caller = .dropping) :
    { s with stopping := true, caller := caller }.Drained :=
  { hs with
    kept := fun _ => hcaller.imp_right .inl
    queue_nil := fun _ => hnil
    stopping_nil := fun _ => hnil
    dropped := fun _ => rfl
    left := fun hleft => ⟨rfl, (hs.left hleft).2⟩ }

theorem Drained.call (hcounted : s.Counted)
    (hdrop : l = .drop → s.queue = []) (hcall : s.call l = some s') : s'.Drained := by
  cases l <;> simp only [LocalWorker.call, Option.ite_none_right_eq_some, Option.some.injEq,
    reduceCtorEq] at hcall
  case reserve =>
    obtain ⟨hphase, hcall⟩ := hcall
    split_ifs at hcall with hroom
    · cases hcall
      exact hs.plainTurn _ (by simp [hphase]) (by simp)
    · cases hcall
      exact hs
  case ready valid =>
    obtain ⟨hphase, rfl⟩ := hcall
    split_ifs with hready
    · simp only [Bool.and_eq_true] at hready
      refine hs.turn ?_ (by simp) (by simp)
      intro hstopping
      have hnone := (hs.executor_eq_false hstopping (by simp [hphase])).1
      rw [hready.1] at hnone
      cases hnone
    · exact hs.plainTurn _ (by simp [hphase]) (by simp)
  case submit =>
    obtain ⟨hphase, hcall⟩ := hcall
    split_ifs at hcall with hended hroom
    · -- the channel closes when the worker ends, which no reservation outlives
      have hleft : s.Left := .inr (.inr (.inr (.inr hended)))
      exact absurd (hs.left hleft).1 (hs.not_stopping hphase)
    · cases hcall
      exact
        { hs with
          kept := fun h => absurd h (hs.not_stopping hphase)
          queue_nil := fun h => absurd h (hs.not_stopping hphase)
          stopping_nil := by simp
          dropped := fun h => hs.dropped (.inl (by simpa using h)) }
  case refuse | cancelReservation | shutdown =>
    obtain ⟨hphase, rfl⟩ := hcall
    exact hs.plainTurn _ (by simp [hphase]) (by simp)
  case drained =>
    obtain ⟨hphase, rfl⟩ := hcall
    refine hs.turn ?_ (fun _ => hcounted.queue_eq_nil hphase.2) (by simp)
    intro hstopping
    have hnone := (hs.executor_eq_false hstopping (by simp [hphase.1])).1
    exact .inr (.inr (.inr ⟨hnone, by simp⟩))
  case stop =>
    obtain ⟨hphase, rfl⟩ := hcall
    exact hs.stopped (hs.stopping_nil hphase) (.inl rfl)
  case shutdownDone =>
    obtain ⟨hphase, rfl⟩ := hcall
    refine hs.turn ?_ (by simp) (by simp)
    exact fun _ => .inr (.inr (.inr ⟨hs.released hphase.2, by simp⟩))
  case drop =>
    obtain ⟨hphase, rfl⟩ := hcall
    exact hs.stopped (hdrop rfl) (.inr rfl)
  case disconnect =>
    obtain ⟨hphase, rfl⟩ := hcall
    refine hs.turn ?_ (by simp) ?_
    · exact fun _ => .inr (.inr (.inl rfl))
    · exact fun _ => hs.dropped (.inr (.inl hphase))

theorem Drained.inLoop (hqueue : s.queue = [] → s'.queue = [])
    (hdisconnected : s'.disconnected = true → s.stopping = true)
    (hfrom : ¬ s.Left) (hto : ¬ s'.Left) (hstopping : s'.stopping = s.stopping)
    (hcaller : s'.caller = s.caller) (hexecutor : s'.executor = s.executor)
    (htensors : s'.tensors = s.tensors) (hreleased : s'.released = s.released) : s'.Drained where
  kept := by
    rw [hstopping, Kept, hcaller, hexecutor]
    exact hs.kept
  queue_nil := by
    rw [hstopping]
    exact fun h => hqueue (hs.queue_nil h)
  stopping_nil := by
    rw [hcaller]
    exact fun h => hqueue (hs.stopping_nil h)
  dropped := by
    rw [hstopping, hcaller]
    exact fun h => h.elim hdisconnected fun hgone => hs.dropped (.inr hgone)
  left hleft := absurd hleft hto
  executor_left := by
    rw [hexecutor]
    exact fun h => absurd (hs.executor_left h) hfrom
  tensors_left := by
    rw [htensors]
    exact fun h => absurd (hs.tensors_left h) hfrom
  executor_gone hgone := by
    refine absurd ?_ hto
    rcases hgone with h | h
    · exact .inr (.inl h)
    · exact .inr (.inr (.inl h))
  released := by
    rw [hreleased, hexecutor]
    exact hs.released

theorem Drained.disconnected_stopping (h : s.disconnected = true) : s.stopping = true :=
  hs.dropped (.inl h)

theorem Drained.out (hleft : s.Left) (tensors released : Bool) {worker : WorkerPhase}
    (hworker : { s with worker := worker }.Left)
    (hgone : worker = .releasing ∨ worker = .signalling → s.executor = false)
    (hreleased : released = true → s.executor = false) :
    { s with tensors := tensors, released := released, worker := worker }.Drained :=
  { hs with
    left := fun _ => hs.left hleft
    executor_left := fun _ => hworker
    tensors_left := fun _ => hworker
    executor_gone := hgone
    released := hreleased }

theorem Drained.work (hwork : s.work l = some s') : s'.Drained := by
  have hdisconnected := hs.disconnected_stopping
  cases l <;> simp only [LocalWorker.work, Option.ite_none_right_eq_some, Option.some.injEq,
    reduceCtorEq] at hwork
  case receive =>
    obtain ⟨hphase, hwork⟩ := hwork
    split at hwork
    next job rest hqueue =>
      cases hwork
      refine hs.inLoop ?_ hdisconnected (by simp [Left, *]) (by simp [Left, *]) rfl rfl rfl rfl rfl
      intro hnil
      simp [hqueue] at hnil
    next hqueue =>
      cases hwork
      refine hs.inLoop id ?_ (by simp [Left, *]) (by simp [Left]) rfl rfl rfl rfl rfl
      intro h
      rcases Bool.or_eq_true_iff.mp h with h | hgone
      · exact hdisconnected h
      · exact hs.dropped (.inr (.inr (of_decide_eq_true hgone)))
  case advance response =>
    split at hwork
    next index hphase =>
      split at hwork
      · cases hwork
        exact hs.inLoop id hdisconnected (by simp [Left, *]) (by simp [Left]) rfl rfl rfl rfl rfl
      · split_ifs at hwork
        all_goals
          cases hwork
          exact hs.inLoop id hdisconnected (by simp [Left, *]) (by simp [Left]) rfl rfl rfl rfl rfl
    · cases hwork
  case complete =>
    split at hwork
    next index hphase =>
      cases hwork
      exact hs.inLoop id hdisconnected (by simp [Left, *]) (by simp [Left]) rfl rfl rfl rfl rfl
    · cases hwork
  case check =>
    obtain ⟨hphase, hwork⟩ := hwork
    split_ifs at hwork with hstop
    · cases hwork
      simp only [Bool.and_eq_true, Bool.or_eq_true, List.isEmpty_iff] at hstop
      have hstopping : s.stopping = true := hstop.1.elim hdisconnected id
      exact
        { hs with
          left := fun _ => ⟨hstopping, hstop.2⟩
          executor_left := fun _ => .inl rfl
          tensors_left := fun _ => .inl rfl
          executor_gone := by simp }
    · cases hwork
      exact hs.inLoop id hdisconnected (by simp [Left, *]) (by simp [Left]) rfl rfl rfl rfl rfl
  case wake =>
    obtain ⟨hphase, rfl⟩ := hwork
    exact hs.inLoop id hdisconnected (by simp [Left, *]) (by simp [Left]) rfl rfl rfl rfl rfl
  case releaseExecutor =>
    obtain ⟨hphase, rfl⟩ := hwork
    have hleft := hs.left (.inl hphase)
    refine ⟨?_, hs.queue_nil, hs.stopping_nil, hs.dropped, fun _ => hleft, ?_, ?_, fun _ => rfl,
      fun _ => rfl⟩
    · intro hstopping
      rcases hs.kept hstopping with h | h | h | h
      · exact .inl h
      · exact .inr (.inl h)
      · exact .inr (.inr (.inl h))
      · exact .inr (.inr (.inr ⟨rfl, h.2⟩))
    all_goals simp [Left]
  case releaseTensors =>
    obtain ⟨hphase, rfl⟩ := hwork
    exact hs.out (.inr (.inl hphase)) false s.released (by simp [Left])
      (fun _ => hs.executor_gone (.inl hphase)) hs.released
  case signal =>
    obtain ⟨hphase, rfl⟩ := hwork
    exact hs.out (.inr (.inr (.inl hphase))) s.tensors true (by simp [Left]) (by simp)
      fun _ => hs.executor_gone (.inr hphase)
  case reaped =>
    obtain ⟨hphase, rfl⟩ := hwork
    exact hs.out (.inr (.inr (.inr (.inl hphase)))) s.tensors s.released (by simp [Left]) (by simp)
      hs.released

end

theorem receivedNext_eq (hnext : s.receivedNext l = some s') :
    s.next l = some s' ∧ (l = .drop → s.queue = []) := by
  unfold receivedNext at hnext
  split_ifs at hnext with hlost
  exact ⟨hnext, fun hl => of_not_not fun hne => hlost ⟨hl, hne⟩⟩

theorem Drained.receivedNext (hs : s.Drained) (hcounted : s.Counted)
    (hnext : s.receivedNext l = some s') : s'.Drained := by
  obtain ⟨hstep, hdrop⟩ := receivedNext_eq hnext
  rcases next_cases hstep with hcall | hwork
  · exact hs.call hcounted hdrop hcall
  · exact hs.work hwork

theorem counted_of_reachable (hs : localMachine.Reachable s) : s.Counted := by
  refine hs.invariant ?_ ?_
  · rintro s rfl
    exact counted_new
  · intro s l t hcounted hstep
    exact hcounted.next hstep

theorem drained_of_reachable (hs : receivedMachine.Reachable s) : s.Counted ∧ s.Drained := by
  refine hs.invariant (I := fun s => s.Counted ∧ s.Drained) ?_ ?_
  · rintro s rfl
    exact ⟨counted_new, drained_new⟩
  · rintro s l t ⟨hcounted, hdrained⟩ hstep
    exact ⟨hcounted.next (receivedNext_eq hstep).1, hdrained.receivedNext hcounted hstep⟩

theorem Drained.perm_ready (hs : s.Drained) (hcounted : s.Counted) (hleft : s.Left) :
    (List.range s.accepted).Perm s.ready := by
  obtain ⟨hstopping, hactive⟩ := hs.left hleft
  have hjobs := hcounted.jobs
  rwa [hactive, hs.queue_nil hstopping, append_nil, append_nil] at hjobs

end LocalWorker

section Claims

/-- The counter is exact in every run and no job has two results. When the handle is dropped only
after the worker has received every job, each accepted job has its one result before the executor or
the tensors are let go of. -/
theorem accepted_jobs_drained {s : LocalWorker} (hs : localMachine.Reachable s) :
    s.pending + s.finished = s.reservations + s.accepted ∧
      s.pending ≤ maxPending ∧
      (s.caller = .cancelling ∨ s.completing = 1 → 0 < s.pending) ∧
      (∀ job, s.ready.count job ≤ 1) ∧
      (receivedMachine.Reachable s → s.executor = false ∨ s.tensors = false →
        ∀ job < s.accepted, s.ready.count job = 1) := by
  have hcounted := LocalWorker.counted_of_reachable hs
  refine ⟨hcounted.pending_eq, hcounted.pending_le, hcounted.pending_pos, ?_, ?_⟩
  · have hnodup := hcounted.jobs.nodup_iff.mp nodup_range
    exact List.nodup_iff_count_le_one.mp hnodup.of_append_left.of_append_left
  · intro hreceived hgone job hjob
    have hdrained := (LocalWorker.drained_of_reachable hreceived).2
    have hleft : s.Left := hgone.elim hdrained.executor_left hdrained.tensors_left
    rw [← (hdrained.perm_ready hcounted hleft).count_eq job]
    exact count_eq_one_of_mem nodup_range (List.mem_range.mpr hjob)

def drainedRun : List LocalStep :=
  [.reserve, .ready true, .submit, .receive, .receive, .advance true, .complete, .advance true,
    .drop, .check, .releaseExecutor, .releaseTensors]

theorem accepted_jobs_drained_once :
    ∃ s : LocalWorker, s.executor = false ∧ s.accepted = 1 ∧ s.pending = 0 ∧
      s.ready.count 0 = 1 := by
  have hrun : (drainedRun.foldlM LocalWorker.receivedNext .new).any (fun s =>
      decide (s.executor = false ∧ s.accepted = 1 ∧ s.pending = 0)) = true := by
    decide +kernel
  obtain ⟨s, hreceived, hexecutor, haccepted, hpending⟩ :=
    receivedMachine.exists_reachable rfl rfl hrun
  have hreach : localMachine.Reachable s := by
    apply hreceived.mono
    · exact fun _ hinit => hinit
    · exact fun _ _ _ hstep => (LocalWorker.receivedNext_eq hstep).1
  obtain ⟨-, -, -, -, hdrained⟩ := accepted_jobs_drained hreach
  exact ⟨s, hexecutor, haccepted, hpending,
    hdrained hreceived (.inl hexecutor) 0 (by rw [haccepted]; exact Nat.one_pos)⟩

/-- The handle is dropped between the worker's last `try_recv` and its look at `stopping`, right after
a submit: the worker lets go of everything and the job never has a result. -/
theorem dropped_job_lost :
    ∃ s, localMachine.Reachable s ∧ s.executor = false ∧ s.tensors = false ∧ s.accepted = 1 ∧
      s.worker = .ended ∧ s.pending = 1 ∧ s.ready = [] := by
  have hrun : ([.reserve, .ready true, .receive, .advance true, .submit, .drop, .check, .disconnect,
      .releaseExecutor, .releaseTensors, .signal, .reaped].foldlM LocalWorker.next .new).any
      (fun s => decide (s.executor = false ∧ s.tensors = false ∧ s.accepted = 1 ∧
        s.worker = .ended ∧ s.pending = 1 ∧ s.ready = [])) = true := by
    decide +kernel
  exact localMachine.exists_reachable rfl rfl hrun

end Claims

end OrbitKV
