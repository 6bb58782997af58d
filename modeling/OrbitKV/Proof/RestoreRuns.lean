import OrbitKV.Proof.RestoreAccesses

/-! # Restore calls that run alone -/

namespace OrbitKV

open Std

open RestoreCompletions

theorem decode_eq_some {tag : Nat} {state : GrantState} (hdecode : GrantState.decode tag = some state) :
    tag % 16 = state.code := by
  unfold GrantState.decode at hdecode
  split at hdecode
  case h_14 => cases hdecode
  all_goals
    cases hdecode
    assumption

def Area.exchanged (area : Area) (exchange : Exchange) : Area :=
  { area with
    tags := Function.update area.tags exchange.slot exchange.new
    log := area.log ++ [exchange] }

theorem Area.exchange_cases (area : Area) (slot : Slot) (old new : Nat)
    (note : Option RestoreResult) :
    area.tags slot = old ∧ area.exchange slot old new note =
        (true, area.exchanged ⟨slot, old, new, note⟩) ∨
      area.tags slot ≠ old ∧ area.exchange slot old new note = (false, area) := by
  unfold Area.exchange
  split
  case isTrue htag => exact .inl ⟨htag, rfl⟩
  case isFalse htag => exact .inr ⟨htag, rfl⟩

structure Area.InState (area : Area) (id : Nat) (state : GrantState) : Prop where
  pos : 0 < id
  le : id ≤ maxOperationId
  tag : area.tags (slotOf id) = tagOf id state

def stateOf (id tag : Nat) : Op GrantState :=
  if tag / 16 ≠ id then
    .fail (.stale id)
  else
    match GrantState.decode tag with
    | some state => .done state
    | none => .fail .invalidPayload

theorem state_eq (id : Nat) : state id = offset id >>= fun slot => Op.loadTag slot >>= stateOf id :=
  rfl

variable {α β : Type} {area : Area} {id : Nat} {source target : GrantState}

theorem run_bind_error {op : Op α} {rest : α → Op β} {error : CompletionError} {area' : Area}
    (hrun : op.run area = (some (.error error), area')) :
    (op >>= rest).run area = (some (.error error), area') := by
  rw [run_bind, hrun]
  rfl

theorem run_bind_ok {op : Op α} {rest : α → Op β} {value : α} {area' : Area}
    (hrun : op.run area = (some (.ok value), area')) :
    (op >>= rest).run area = (rest value).run area' := by
  rw [run_bind, hrun]
  rfl

theorem run_map (f : α → β) (op : Op α) (area : Area) :
    (f <$> op).run area = ((op.run area).1.map (Except.map f), (op.run area).2) := by
  rw [Process.map_eq, run_bind]
  obtain ⟨outcome, area'⟩ := op.run area
  cases outcome with
  | none => rfl
  | some outcome => cases outcome <;> rfl

theorem run_offset (hpos : 0 < id) (hle : id ≤ maxOperationId) (rest : Slot → Op α) :
    (offset id >>= rest).run area = (rest (slotOf id)).run area := by
  unfold offset
  rw [if_neg (by omega), Process.done_bind]

theorem run_offset_cases (area : Area) (id : Nat) (rest : Slot → Op α) :
    (∃ error, (offset id >>= rest).run area = (some (.error error), area)) ∨
      0 < id ∧ id ≤ maxOperationId ∧
        (offset id >>= rest).run area = (rest (slotOf id)).run area := by
  by_cases hvalid : id = 0 ∨ maxOperationId < id
  · refine .inl ⟨.stale id, run_bind_error ?_⟩
    rw [offset, if_pos hvalid, run_fail]
  · have hpos : 0 < id := by omega
    have hle : id ≤ maxOperationId := by omega
    exact .inr ⟨hpos, hle, run_offset hpos hle rest⟩

theorem run_state (hstate : area.InState id source) (rest : GrantState → Op α) :
    (state id >>= rest).run area = (rest source).run area := by
  have hrun : (state id).run area = (some (.ok source), area) := by
    unfold state
    rw [run_offset hstate.pos hstate.le, run_loadTag, hstate.tag, tagOf_div, if_neg (by simp),
      decode_tagOf]
    rfl
  exact run_bind_ok hrun

theorem run_state_cases (area : Area) (id : Nat) (rest : GrantState → Op α) :
    (∃ error, (state id >>= rest).run area = (some (.error error), area)) ∨
      ∃ source, area.InState id source ∧ (state id >>= rest).run area = (rest source).run area := by
  by_cases hvalid : id = 0 ∨ maxOperationId < id
  · refine .inl ⟨.stale id, run_bind_error ?_⟩
    unfold state offset
    rw [if_pos hvalid]
    rfl
  by_cases hid : area.tags (slotOf id) / 16 = id
  · cases hdecode : GrantState.decode (area.tags (slotOf id)) with
    | none =>
      refine .inl ⟨.invalidPayload, run_bind_error ?_⟩
      unfold state
      rw [run_offset (by omega) (by omega), run_loadTag, if_neg (by simpa using hid), hdecode]
      rfl
    | some source =>
      have hmod := decode_eq_some hdecode
      have hstate : area.InState id source := by
        refine ⟨by omega, by omega, ?_⟩
        unfold tagOf
        omega
      exact .inr ⟨source, hstate, run_state hstate rest⟩
  · refine .inl ⟨.stale id, run_bind_error ?_⟩
    unfold state
    rw [run_offset (by omega) (by omega), run_loadTag, if_pos hid, run_fail]

theorem run_tryTransition (hstate : area.InState id source) (note : Option RestoreResult)
    (rest : Bool → Op α) : (tryTransition id source target note >>= rest).run area =
      (rest true).run (area.exchanged ⟨slotOf id, tagOf id source, tagOf id target, note⟩) := by
  have hrun : (tryTransition id source target note).run area =
      (some (.ok true), area.exchanged ⟨slotOf id, tagOf id source, tagOf id target, note⟩) := by
    unfold tryTransition
    rw [run_offset hstate.pos hstate.le]
    change ((some (.ok (area.exchange _ _ _ note).1), (area.exchange _ _ _ note).2) :
      Option (Except CompletionError Bool) × Area) = _
    rw [Area.exchange, if_pos hstate.tag]
    rfl
  exact run_bind_ok hrun

theorem run_transition (hstate : area.InState id source) (note : Option RestoreResult)
    (rest : Unit → Op α) : (transition id source target note >>= rest).run area =
      (rest ()).run (area.exchanged ⟨slotOf id, tagOf id source, tagOf id target, note⟩) := by
  rw [transition, Process.bind_assoc, run_tryTransition hstate, if_pos rfl]
  rfl

end OrbitKV
