import Mathlib.Tactic

/-!
# Lists of distinctly keyed items

Items in progress, addressed by position, with a key that no other item shares.
-/

namespace OrbitKV

open List

variable {α κ : Type*} {items : List α} {position : Nat} {item new : α} {key : α → κ}

theorem exists_split (hitem : items[position]? = some item) :
    ∃ before after, items = before ++ item :: after ∧ before.length = position := by
  obtain ⟨hlt, rfl⟩ := List.getElem?_eq_some_iff.mp hitem
  exact ⟨items.take position, items.drop (position + 1), by simp, by simp; omega⟩

theorem mem_eraseIdx_iff (hnodup : (items.map key).Nodup) (hitem : items[position]? = some item)
    {other : α} : other ∈ items.eraseIdx position ↔ other ∈ items ∧ key other ≠ key item := by
  obtain ⟨before, after, rfl, rfl⟩ := exists_split hitem
  simp only [map_append, map_cons, nodup_append, nodup_cons, mem_map, mem_cons] at hnodup
  obtain ⟨-, ⟨hafter, -⟩, hbefore⟩ := hnodup
  rw [eraseIdx_append_of_length_le le_rfl, Nat.sub_self, eraseIdx_cons_zero,
    mem_append, mem_append, mem_cons]
  constructor
  · rintro (hmem | hmem)
    · exact ⟨.inl hmem, hbefore _ ⟨other, hmem, rfl⟩ _ (.inl rfl)⟩
    · exact ⟨.inr (.inr hmem), fun heq => hafter ⟨other, hmem, heq⟩⟩
  · rintro ⟨hmem | rfl | hmem, hne⟩
    · exact .inl hmem
    · exact absurd rfl hne
    · exact .inr hmem

theorem mem_set_iff (hnodup : (items.map key).Nodup) (hitem : items[position]? = some item)
    {other : α} : other ∈ items.set position new ↔ other = new ∨ other ∈ items ∧ key other ≠ key item
    := by
  rw [← mem_eraseIdx_iff hnodup hitem]
  obtain ⟨before, after, rfl, rfl⟩ := exists_split hitem
  rw [eraseIdx_append_of_length_le le_rfl, Nat.sub_self, eraseIdx_cons_zero,
    set_append_right _ _ le_rfl, Nat.sub_self, set_cons_zero]
  simp only [mem_append, mem_cons]
  tauto

theorem map_set_of_eq (hitem : items[position]? = some item) (hkey : key new = key item) :
    (items.set position new).map key = items.map key := by
  obtain ⟨before, after, rfl, rfl⟩ := exists_split hitem
  rw [set_append_right _ _ le_rfl, Nat.sub_self, set_cons_zero]
  simp [hkey]

theorem countP_eraseIdx (hitem : items[position]? = some item) (p : α → Bool) :
    items.countP p = (items.eraseIdx position).countP p + if p item then 1 else 0 := by
  obtain ⟨before, after, rfl, rfl⟩ := exists_split hitem
  rw [eraseIdx_append_of_length_le le_rfl, Nat.sub_self, eraseIdx_cons_zero,
    countP_append, countP_append, countP_cons]
  omega

end OrbitKV
