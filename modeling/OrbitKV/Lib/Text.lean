import OrbitKV.Lib.Wire

/-!
# Text as bytes

A text and its UTF-8 encoding determine each other; lengths in front tell texts apart that follow
one another.
-/

namespace OrbitKV

def asBytes (text : String) : Bytes :=
  text.toByteArray.data.toList

theorem asBytes_injective : Function.Injective asBytes := by
  intro text text' hbytes
  apply String.toByteArray_inj.mp
  apply ByteArray.ext
  exact Array.toList_inj.mp hbytes

theorem fromUTF8_eq_some {raw : Bytes} {text : String} :
    String.fromUTF8? ⟨raw.toArray⟩ = some text ↔ raw = asBytes text := by
  constructor
  · intro hsome
    unfold String.fromUTF8? at hsome
    split at hsome
    · cases hsome
      rfl
    · cases hsome
  · rintro rfl
    rw [asBytes, Array.toArray_toList]
    exact dif_pos text.isValidUTF8

/-! ### Lengths in front -/

/-- `to_be_bytes` of a word of `width` bytes. -/
def beBytes (width n : Nat) : Bytes :=
  (leBytes width n).reverse

@[simp]
theorem length_beBytes (width n : Nat) : (beBytes width n).length = width := by
  rw [beBytes, List.length_reverse, length_leBytes]

theorem beBytes_inj {width m n : Nat} (hm : m < 256 ^ width) (hn : n < 256 ^ width)
    (hbytes : beBytes width m = beBytes width n) : m = n := by
  have hwords : leBytes width m = leBytes width n := List.reverse_injective hbytes
  rw [← ofLe_leBytes hm, hwords, ofLe_leBytes hn]

/-- The encoding of a value that fits can be split off in one way only. -/
def PrefixFree {α : Type*} (fits : α → Prop) (encode : α → Bytes) : Prop :=
  ∀ a b s t, fits a → fits b → encode a ++ s = encode b ++ t → a = b ∧ s = t

theorem PrefixFree.flatMap {α : Type*} {fits : α → Prop} {encode : α → Bytes}
    (hfree : PrefixFree fits encode) {n : Nat} :
    PrefixFree (fun xs : List α => xs.length = n ∧ ∀ x ∈ xs, fits x) (·.flatMap encode) := by
  intro xs ys s t hxs hys hbytes
  induction n generalizing xs ys with
  | zero =>
    obtain rfl := List.length_eq_zero_iff.mp hxs.1
    obtain rfl := List.length_eq_zero_iff.mp hys.1
    exact ⟨rfl, hbytes⟩
  | succ n ih =>
    obtain ⟨x, xs, rfl⟩ := List.exists_cons_of_length_eq_add_one hxs.1
    obtain ⟨y, ys, rfl⟩ := List.exists_cons_of_length_eq_add_one hys.1
    obtain ⟨hx, hrest⟩ := List.forall_mem_cons.mp hxs.2
    obtain ⟨hy, hrest'⟩ := List.forall_mem_cons.mp hys.2
    simp only [List.flatMap_cons, List.append_assoc] at hbytes
    obtain ⟨rfl, htail⟩ := hfree x y _ _ hx hy hbytes
    obtain ⟨rfl, rfl⟩ := ih xs ys ⟨Nat.succ.inj hxs.1, hrest⟩ ⟨Nat.succ.inj hys.1, hrest'⟩ htail
    exact ⟨rfl, rfl⟩

theorem prefixFree_sizedText (width : Nat) :
    PrefixFree (fun text : String => (asBytes text).length < 256 ^ width)
      (fun text => beBytes width (asBytes text).length ++ asBytes text) := by
  intro text text' s t hfits hfits' hbytes
  rw [List.append_assoc, List.append_assoc] at hbytes
  obtain ⟨hsize, hrest⟩ := List.append_inj hbytes (by simp)
  obtain ⟨htext, htail⟩ := List.append_inj hrest (beBytes_inj hfits hfits' hsize)
  exact ⟨asBytes_injective htext, htail⟩

end OrbitKV
