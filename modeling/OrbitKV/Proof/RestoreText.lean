import Mathlib.Tactic
import OrbitKV.Channel.Completion

/-! # Messages of restore results -/

namespace OrbitKV

structure IsCut (text : String) (limit : Nat) (message : String) : Prop where
  beginning : ∃ rest, text = message ++ rest
  fits : message.utf8ByteSize ≤ limit
  longest : ∀ longer rest, text = longer ++ rest → longer.utf8ByteSize ≤ limit →
    longer.utf8ByteSize ≤ message.utf8ByteSize

theorem isCharBoundary_iff {text : String} {position : Nat} :
    isCharBoundary text position = true ↔
      ∃ message rest, text = message ++ rest ∧ message.utf8ByteSize = position := by
  simp only [isCharBoundary, List.any_eq_true, List.mem_inits, beq_iff_eq]
  constructor
  · rintro ⟨characters, ⟨others, hcharacters⟩, hsize⟩
    refine ⟨String.ofList characters, String.ofList others, ?_, hsize⟩
    rw [← String.ofList_append, hcharacters, String.ofList_toList]
  · rintro ⟨message, rest, rfl, hsize⟩
    refine ⟨message.toList, ⟨rest.toList, by simp⟩, ?_⟩
    rwa [String.ofList_toList]

theorem boundaryBelow_spec (text : String) (position : Nat) :
    isCharBoundary text (boundaryBelow text position) = true ∧ boundaryBelow text position ≤ position ∧
      ∀ other, other ≤ position → isCharBoundary text other = true →
        other ≤ boundaryBelow text position := by
  induction position with
  | zero =>
    refine ⟨isCharBoundary_iff.mpr ⟨"", text, by simp, rfl⟩, le_rfl, ?_⟩
    exact fun other hother _ => hother
  | succ position ih =>
    obtain ⟨hboundary, hle, hlargest⟩ := ih
    rw [boundaryBelow]
    by_cases hhere : isCharBoundary text (position + 1) = true
    · rw [if_pos hhere]
      exact ⟨hhere, le_rfl, fun other hother _ => hother⟩
    · rw [if_neg hhere]
      refine ⟨hboundary, hle.trans (Nat.le_succ _), fun other hother hother' => ?_⟩
      rcases Nat.lt_or_ge position other with hlt | hge
      · obtain rfl : other = position + 1 := by omega
        exact absurd hother' hhere
      · exact hlargest other hge hother'

theorem take_toByteArray (message rest : String) :
    (message ++ rest).toByteArray.data.toList.take message.utf8ByteSize =
      message.toByteArray.data.toList := by
  rw [String.toByteArray_append, ByteArray.data_append, Array.toList_append,
    ← String.size_toByteArray]
  exact List.take_left' (by simp)

def RestoreResult.text (result : RestoreResult) : String :=
  match result with
  | .ok _ => ""
  | .error message => message

theorem storedMessage_cut (result : RestoreResult) : ∃ message : String,
    IsCut (RestoreResult.text result) restoreErrorBytes message ∧
      storedMessage result = message.toByteArray.data.toList := by
  obtain ⟨hboundary, hle, hlargest⟩ := boundaryBelow_spec (RestoreResult.text result)
    (min (RestoreResult.text result).utf8ByteSize restoreErrorBytes)
  obtain ⟨message, rest, htext, hsize⟩ := isCharBoundary_iff.mp hboundary
  refine ⟨message, ⟨⟨rest, htext⟩, ?_, fun longer rest' htext' hfits => ?_⟩, ?_⟩
  · rw [hsize]
    exact hle.trans (min_le_right _ _)
  · rw [hsize]
    apply hlargest
    · refine le_min ?_ hfits
      rw [htext', String.utf8ByteSize_append]
      exact Nat.le_add_right _ _
    · exact isCharBoundary_iff.mpr ⟨longer, rest', htext', rfl⟩
  · have hstored : storedMessage result =
        (RestoreResult.text result).toByteArray.data.toList.take message.utf8ByteSize := by
      rw [hsize]
      rfl
    rw [hstored]
    nth_rewrite 1 [htext]
    exact take_toByteArray message rest

theorem length_toByteArray (message : String) :
    message.toByteArray.data.toList.length = message.utf8ByteSize := by
  rw [Array.length_toList, ← String.size_toByteArray]
  rfl

theorem fromUTF8_toByteArray (message : String) :
    String.fromUTF8? ⟨message.toByteArray.data.toList.toArray⟩ = some message := by
  rw [Array.toArray_toList]
  exact dif_pos message.isValidUTF8

end OrbitKV
