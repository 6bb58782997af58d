import OrbitKV.Server.ActiveTasks
import Mathlib.Tactic

/-!
# Draining the active tasks

A drain that waits while no task is active is about to be notified, or has a permit.
-/

namespace OrbitKV

namespace ActiveTasks

structure Sound (s : ActiveTasks) : Prop where
  counted : s.state % activeTasksClosed = s.tasks
  fits : s.state < 2 * activeTasksClosed
  closed : s.drain ≠ .notCalled → activeTasksClosed ≤ s.state
  polling : s.drain = .polling → s.tasks = 0 → s.permit = true ∨ 0 < s.notifying
  waiting : s.drain = .waiting → s.tasks = 0 → 0 < s.notifying
  returned : s.drain = .returned → s.tasks = 0

variable {s t : ActiveTasks} {l : Step}

theorem isClosed_iff {word : Nat} (hfits : word < 2 * activeTasksClosed) :
    isClosed word = true ↔ activeTasksClosed ≤ word := by
  unfold isClosed activeTasksClosed at *
  rw [decide_eq_true_iff]
  omega

theorem Sound.exchange (hs : s.Sound) (index current : Nat) (spurious : Bool) :
    (s.exchange index current spurious).Sound := by
  unfold ActiveTasks.exchange
  split_ifs with hrefused hswapped
  · exact { hs with }
  · obtain ⟨rfl, -⟩ := hswapped
    obtain ⟨hopen, hroom⟩ := not_or.mp hrefused
    have hcounted := hs.counted
    have hlow : s.state < activeTasksClosed := not_le.mp (mt (isClosed_iff hs.fits).mpr hopen)
    -- an open gate is not being drained
    have hdrain : s.drain = .notCalled := by
      by_contra hcalled
      exact absurd (hs.closed hcalled) (not_le.mpr hlow)
    unfold activeTasksClosed at hlow hroom hcounted
    constructor <;> simp only [hdrain, activeTasksClosed] <;> simp <;> omega
  · exact { hs with }

theorem Sound.load (hs : s.Sound) {next : DrainPhase} (hcalled : s.drain ≠ .notCalled)
    (hnext : next = .listening ∨ next = .polling) : (s.load next).Sound := by
  have hclosed := hs.closed hcalled
  have hcounted := hs.counted
  unfold ActiveTasks.load
  split_ifs with hzero
  · exact ⟨hcounted, hs.fits, fun _ => hclosed, by simp, by simp, fun _ => hcounted ▸ hzero⟩
  · refine ⟨hcounted, hs.fits, fun _ => hclosed, fun _ hnone => ?_, ?_, ?_⟩
    · exact absurd (hcounted.trans hnone) hzero
    · rcases hnext with rfl | rfl <;> simp
    · rcases hnext with rfl | rfl <;> simp

theorem Sound.drop_state (hs : s.Sound) (hlive : s.tasks ≠ 0) : s.drop.state = s.state - 1 := by
  apply if_neg
  intro hzero
  rw [← hs.counted, hzero] at hlive
  exact hlive (Nat.zero_mod _)

theorem Sound.drop (hs : s.Sound) (hlive : s.tasks ≠ 0) : s.drop.Sound := by
  have hstate := hs.drop_state hlive
  have htasks : s.drop.tasks = s.tasks - 1 := rfl
  have hcounted := hs.counted
  have hfits := hs.fits
  -- the drop that leaves no task has found the counter at one
  have hdue (hnone : s.drop.tasks = 0) : 0 < s.drop.notifying := by
    have hlast : s.state % activeTasksClosed = 1 := by omega
    simp only [ActiveTasks.drop, if_pos hlast, Nat.succ_pos]
  refine ⟨?_, by omega, fun hcalled => ?_, fun _ hnone => .inr (hdue hnone), fun _ => hdue, ?_⟩
  · unfold activeTasksClosed at *
    omega
  · have hle := hs.closed hcalled
    unfold activeTasksClosed at *
    omega
  · exact fun hphase => absurd (hs.returned hphase) hlive

theorem Sound.next (hs : s.Sound) (hnext : s.next l = some t) : t.Sound := by
  cases l with
  | tryAdmit =>
    cases hnext
    exact { hs with }
  | exchange index spurious =>
    obtain ⟨current, -, rfl⟩ := Option.map_eq_some_iff.mp hnext
    exact hs.exchange index current spurious
  | close =>
    cases hnext
    have hfits := hs.fits
    have hcounted := hs.counted
    split_ifs with hclosed
    · exact { hs with }
    · have hlow := not_le.mp (mt (isClosed_iff hfits).mpr hclosed)
      refine { hs with counted := ?_, fits := ?_, closed := fun _ => Nat.le_add_left _ _ }
      · rw [Nat.add_mod_right, hcounted]
      · dsimp only
        omega
  | drain =>
    simp only [ActiveTasks.next] at hnext
    split_ifs at hnext with hready
    cases hnext
    exact ⟨hs.counted, hs.fits, fun _ => (isClosed_iff hs.fits).mp hready.2, nofun, nofun, nofun⟩
  | load =>
    simp only [ActiveTasks.next] at hnext
    split at hnext
    next hphase =>
      cases hnext
      exact hs.load (by rw [hphase]; decide) (.inl rfl)
    next hphase =>
      cases hnext
      exact hs.load (by rw [hphase]; decide) (.inr rfl)
    next => cases hnext
  | poll =>
    simp only [ActiveTasks.next] at hnext
    split_ifs at hnext with hphase hpermit
    all_goals
      cases hnext
      have hclosed := hs.closed (by rw [hphase]; decide)
    · exact ⟨hs.counted, hs.fits, fun _ => hclosed, nofun, nofun, nofun⟩
    · refine ⟨hs.counted, hs.fits, fun _ => hclosed, nofun, fun _ hnone => ?_, nofun⟩
      exact (hs.polling hphase hnone).resolve_left hpermit
  | drop =>
    simp only [ActiveTasks.next, Option.ite_none_left_eq_some, Option.some.injEq] at hnext
    exact hnext.2 ▸ hs.drop hnext.1
  | notifyOne =>
    simp only [ActiveTasks.next] at hnext
    split_ifs at hnext with hnone hphase
    · cases hnext
      have hclosed := hs.closed (by rw [hphase]; decide)
      exact ⟨hs.counted, hs.fits, fun _ => hclosed, nofun, nofun, nofun⟩
    · cases hnext
      exact { hs with
        polling := fun _ _ => .inl rfl
        waiting := fun hwaits => absurd hwaits hphase }

theorem sound_of_reachable (hreach : machine.Reachable s) : s.Sound :=
  hreach.invariant (fun _ hinit => hinit ▸ ⟨rfl, by decide, nofun, nofun, nofun, nofun⟩)
    fun _ _ _ => Sound.next

theorem returned_of_next (hphase : s.drain = .returned) (hnext : s.next l = some t) :
    t.drain = .returned := by
  cases l with
  | exchange | drop => grind [next, exchange, drop]
  | tryAdmit | close | drain | load | poll | notifyOne => grind [next]

/-- Steps of the drain and notifications that are due take the drain to its end. -/
def Ends (s : ActiveTasks) : Prop :=
  ∃ steps : List Step, (∀ l ∈ steps, l = .load ∨ l = .poll ∨ l = .notifyOne) ∧
    ∃ t, steps.foldlM next s = some t ∧ t.drain = .returned

theorem Sound.ends (hs : s.Sound) (hcalled : s.drain ≠ .notCalled) (hnone : s.tasks = 0) :
    s.Ends := by
  have hzero := hs.counted.trans hnone
  cases hphase : s.drain with
  | notCalled => exact absurd hphase hcalled
  | entering | listening => exact ⟨[.load], by simp, by simp [ActiveTasks.next, ActiveTasks.load, *]⟩
  | polling =>
    rcases hs.polling hphase hnone with hpermit | hdue
    · exact ⟨[.poll, .load], by simp, by simp [ActiveTasks.next, ActiveTasks.load, *]⟩
    · exact ⟨[.notifyOne, .poll, .load], by simp,
        by simp [ActiveTasks.next, ActiveTasks.load, hdue.ne', *]⟩
  | waiting =>
    have hdue := (hs.waiting hphase hnone).ne'
    exact ⟨[.notifyOne, .load], by simp, by simp [ActiveTasks.next, ActiveTasks.load, *]⟩
  | returned => exact ⟨[], by simp, s, rfl, hphase⟩

/-- **No task outlives a drain, and no drain outlives the tasks**: in every interleaving the counter
is the number of active tasks. Once `drain` has returned no task is ever active, and a `drain` that
was called returns through its own steps and the notifications due as soon as no task is active. -/
theorem active_tasks_drain (hreach : machine.Reachable s) :
    s.state % activeTasksClosed = s.tasks ∧
      (s.drain = .returned → ∀ steps t, machine.Run s steps t → t.tasks = 0) ∧
      (s.drain ≠ .notCalled → s.tasks = 0 → s.Ends) := by
  have hs := sound_of_reachable hreach
  refine ⟨hs.counted, fun hphase steps t hrun => ?_, hs.ends⟩
  have hkept : t.Sound ∧ t.drain = .returned := by
    apply hrun.invariant (I := fun u => u.Sound ∧ u.drain = .returned) _ ⟨hs, hphase⟩
    exact fun _ _ _ hu hnext => ⟨hu.1.next hnext, returned_of_next hu.2 hnext⟩
  exact hkept.1.returned hkept.2

/-- The last task ends while the drain is between its second load and its `await`. -/
theorem active_tasks_drain_polling :
    ∃ s, machine.Reachable s ∧ (s.drain = .polling ∧ s.tasks = 0 ∧ s.permit = false) ∧ s.Ends := by
  have hrun : ([.tryAdmit, .exchange 0 false, .close, .drain, .load, .load, .drop].foldlM next
      new).any (fun s => s.drain = .polling ∧ s.tasks = 0 ∧ s.permit = false) = true := by
    decide +kernel
  obtain ⟨s, hreach, hfacts⟩ := machine.exists_reachable rfl rfl hrun
  have hcalled : s.drain ≠ .notCalled := by
    rw [hfacts.1]
    decide
  exact ⟨s, hreach, hfacts, (active_tasks_drain hreach).2.2 hcalled hfacts.2.1⟩

end ActiveTasks

end OrbitKV
