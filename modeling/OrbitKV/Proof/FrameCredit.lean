import OrbitKV.Cluster.Credit
import Mathlib.Tactic

/-!
# The credit of the inventory stream

The counter of a sender is the sum over its outstanding frames, within its credit.
-/

namespace OrbitKV

namespace FrameSender

def totalBytes (frames : List OutstandingFrame) : Nat :=
  (frames.map (·.bytes)).sum

structure Sound (s : FrameSender) : Prop where
  bytes : s.outstandingBytes = totalBytes s.outstanding
  credit : s.outstandingBytes ≤ streamCreditBytes
  short : ∀ frame, s.phase = .crediting frame → frame.bytes ≤ messageBytes
  admitted : ∀ frame, s.phase = .queueing frame →
    s.outstandingBytes + frame.bytes ≤ streamCreditBytes

variable {s t : FrameSender}

theorem foldl_sub_bytes (released : List OutstandingFrame) (n : Nat) :
    released.foldl (· - ·.bytes) n = n - totalBytes released := by
  induction released generalizing n with
  | nil => rfl
  | cons frame rest ih =>
    rw [List.foldl_cons, ih, totalBytes, totalBytes, List.map_cons, List.sum_cons, Nat.sub_sub]

/-- No subtraction of `release_acknowledged` is cut off at zero. -/
theorem Sound.release (hs : s.Sound) (hrelease : s.releaseAcknowledged = .ok t) :
    t.outstandingBytes = totalBytes t.outstanding ∧ t.outstandingBytes ≤ s.outstandingBytes ∧
      t.phase = s.phase := by
  unfold releaseAcknowledged at hrelease
  split at hrelease
  · cases hrelease
  · split_ifs at hrelease
    cases hrelease
    dsimp only
    rw [foldl_sub_bytes]
    refine ⟨Nat.sub_eq_of_eq_add' ?_, Nat.sub_le _ _, rfl⟩
    rw [hs.bytes, totalBytes, totalBytes, totalBytes, ← List.sum_append, ← List.map_append,
      List.takeWhile_append_dropWhile]

theorem Sound.next {step : SenderStep} (hs : s.Sound) (hnext : s.next step = some t) : t.Sound := by
  unfold FrameSender.next at hnext
  split at hnext
  next bytes hphase =>
    split_ifs at hnext with hlast hlong <;> cases hnext
    · exact ⟨hs.bytes, hs.credit, nofun, nofun⟩
    · exact ⟨hs.bytes, hs.credit, nofun, nofun⟩
    · refine ⟨hs.bytes, hs.credit, ?_, nofun⟩
      rintro frame ⟨⟩
      exact not_lt.mp hlong
  next hphase =>
    split at hnext <;> cases hnext
    · exact ⟨hs.bytes, hs.credit, nofun, nofun⟩
    next hrelease =>
      obtain ⟨hbytes, hle, hidle⟩ := hs.release hrelease
      rw [hphase] at hidle
      exact ⟨hbytes, hle.trans hs.credit, by simp [hidle], by simp [hidle]⟩
  next frame hphase =>
    split at hnext <;> cases hnext
    · exact ⟨hs.bytes, hs.credit, nofun, nofun⟩
    next hrelease =>
      obtain ⟨hbytes, hle, -⟩ := hs.release hrelease
      split_ifs with hfits
      · refine ⟨hbytes, hle.trans hs.credit, nofun, ?_⟩
        rintro sent ⟨⟩
        exact (Nat.add_le_add_right hle _).trans hfits
      · refine ⟨hbytes, hle.trans hs.credit, ?_, nofun⟩
        rintro sent ⟨⟩
        exact hs.short frame hphase
  next frame hphase =>
    cases hnext
    refine ⟨?_, hs.admitted frame hphase, nofun, nofun⟩
    simp [totalBytes, hs.bytes]
  case h_5 | h_6 =>
    cases hnext
    exact { hs with }
  case h_7 =>
    cases hnext
    exact ⟨hs.bytes, hs.credit, nofun, nofun⟩
  case h_8 => cases hnext

/-- **Credit of the inventory stream**: whatever the client acknowledges, a sender has at most its
credit outstanding and counts it exactly. A sender that waits for credit gets it when the client has
acknowledged every outstanding frame. -/
theorem frame_credit (hreach : machine.Reachable s) :
    s.Sound ∧ ∀ frame, s.phase = .crediting frame → s.control.invalid = none →
      s.control.consumedFrameId < s.nextFrame →
        (∀ sent ∈ s.outstanding, sent.frameId ≤ s.control.consumedFrameId) →
          ∃ t, s.releaseAcknowledged = .ok t ∧
            t.outstandingBytes + frame.bytes ≤ streamCreditBytes := by
  have hs : s.Sound := by
    apply hreach.invariant
    · exact fun _ hinit => hinit ▸ ⟨rfl, Nat.zero_le _, nofun, nofun⟩
    · exact fun _ _ _ => Sound.next
  refine ⟨hs, fun frame hphase hvalid hsent hall => ?_⟩
  have htake : s.outstanding.takeWhile (·.frameId ≤ s.control.consumedFrameId) = s.outstanding :=
    List.takeWhile_eq_self_iff.mpr (by simpa using hall)
  simp only [releaseAcknowledged, hvalid, if_neg (not_le.mpr hsent)]
  refine ⟨_, rfl, ?_⟩
  dsimp only
  rw [htake, foldl_sub_bytes, hs.bytes, Nat.sub_self, Nat.zero_add]
  exact hs.short frame hphase

/-- The first frame is released between two frames, and the third, of full length, waits for the
acknowledgement of the second. -/
theorem frame_credit_waiting :
    ∃ s, machine.Reachable s ∧ s.phase = .crediting ⟨3, messageBytes⟩ ∧
      s.outstandingBytes = totalBytes s.outstanding := by
  have hrun : ([.frame 7, .credit, .queue, .ack 1 0, .release, .frame messageBytes, .credit, .queue,
      .frame messageBytes, .credit].foldlM next {}).any
        (fun s => s.phase = .crediting ⟨3, messageBytes⟩) = true := by
    decide +kernel
  obtain ⟨s, hreach, hphase⟩ := machine.exists_reachable rfl rfl hrun
  exact ⟨s, hreach, hphase, (frame_credit hreach).1.bytes⟩

end FrameSender

end OrbitKV
