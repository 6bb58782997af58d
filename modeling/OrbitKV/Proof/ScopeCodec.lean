import OrbitKV.Cluster.Scope

/-!
# Scopes on the wire

A scope that a constructor made contains the namespaces it was made from, survives the fields of an
open, and is determined by the bytes that its digest is taken of.
-/

namespace OrbitKV

open InventoryScope

namespace InventoryScope

variable {namespaces : List String} {scope : InventoryScope}

/-- The scopes that `AllNamespaces` and `exact` make. -/
def Constructed (scope : InventoryScope) : Prop :=
  scope = .allNamespaces ∨ ∃ namespaces, exact namespaces = .ok scope

/-- What `exact` checks of the list that is left after sorting. -/
structure Admits (namespaces : List String) : Prop where
  nonempty : ∀ ns ∈ namespaces, ns ≠ ""
  count : namespaces.length ≤ inventoryScopeMaxNamespaces
  bytes : (exactNamespaces namespaces).canonicalBytes.length ≤ inventoryOpenMaxBytes

theorem exact_eq_ok : exact namespaces = .ok scope ↔
    scope = .exactNamespaces (sortDedup namespaces) ∧ Admits (sortDedup namespaces) := by
  have hempty : namespaces.any String.isEmpty = true ↔ ¬ ∀ ns ∈ sortDedup namespaces, ns ≠ "" := by
    simp
  unfold exact
  dsimp only
  constructor
  · intro hok
    split_ifs at hok with hany hcount hbytes
    cases hok
    exact ⟨rfl, not_not.mp (mt hempty.mpr hany), not_lt.mp hcount, not_lt.mp hbytes⟩
  · rintro ⟨rfl, hadmits⟩
    rw [if_neg (mt hempty.mp (not_not.mpr hadmits.nonempty)), if_neg (not_lt.mpr hadmits.count),
      if_neg (not_lt.mpr hadmits.bytes)]

/-- A list that `exact` leaves as it is. -/
theorem exact_of_sorted (hsorted : namespaces.Pairwise (· < ·)) (hadmits : Admits namespaces) :
    exact namespaces = .ok (.exactNamespaces namespaces) := by
  have hself := sortDedup_of_pairwise hsorted
  apply exact_eq_ok.mpr
  rw [hself]
  exact ⟨rfl, hadmits⟩

/-- The namespaces of a constructed scope can be handed to `exact` again. -/
theorem exact_idempotent (hok : exact namespaces = .ok scope) :
    ∃ sorted, scope = .exactNamespaces sorted ∧ exact sorted = .ok scope ∧ Admits sorted := by
  obtain ⟨rfl, hadmits⟩ := exact_eq_ok.mp hok
  exact ⟨_, rfl, exact_of_sorted (sortDedup_pairwise namespaces) hadmits, hadmits⟩

theorem contains_exact (hok : exact namespaces = .ok scope) (ns : String) :
    scope.contains ns = true ↔ ns ∈ namespaces := by
  obtain ⟨rfl, -⟩ := exact_eq_ok.mp hok
  rw [← mem_sortDedup]
  exact isOk_binarySearchBy_iff (sortDedup_pairwise namespaces)

example : exact ["b", "a", "b"] = .ok (.exactNamespaces ["a", "b"]) := by decide

/-! ### The digest's bytes -/

theorem Admits.length_lt (hadmits : Admits namespaces) :
    ∀ ns ∈ namespaces, (asBytes ns).length < 256 ^ 4 := by
  intro ns hns
  have hbytes := hadmits.bytes
  have hpart : (beBytes 4 (asBytes ns).length ++ asBytes ns).length ≤
      (namespaces.flatMap fun ns => beBytes 4 (asBytes ns).length ++ asBytes ns).length := by
    rw [List.length_flatMap]
    exact List.single_le_sum (by simp) _ (List.mem_map_of_mem hns)
  simp only [canonicalBytes, List.length_append, length_beBytes, inventoryOpenMaxBytes] at hbytes hpart
  omega

theorem canonicalBytes_inj {a b : List String} (ha : Admits a) (hb : Admits b)
    (hbytes : (exactNamespaces a).canonicalBytes = (exactNamespaces b).canonicalBytes) : a = b := by
  simp only [canonicalBytes, List.append_assoc, List.append_cancel_left_eq] at hbytes
  have hcount (namespaces : List String) (hadmits : Admits namespaces) :
      namespaces.length < 256 ^ 4 := by
    have := hadmits.count
    unfold inventoryScopeMaxNamespaces at this
    omega
  obtain ⟨hlength, hrest⟩ := List.append_inj hbytes (by simp)
  have hlength := beBytes_inj (hcount a ha) (hcount b hb) hlength
  have hfree := (prefixFree_sizedText 4).flatMap (n := a.length) a b [] []
  exact (hfree ⟨rfl, ha.length_lt⟩ ⟨hlength.symm, hb.length_lt⟩ (by simpa using hrest)).1

theorem canonicalBytes_injOn {a b : InventoryScope} (ha : a.Constructed) (hb : b.Constructed)
    (hbytes : a.canonicalBytes = b.canonicalBytes) : a = b := by
  have htag (namespaces : List String) : allNamespaces.canonicalBytes ≠
      (exactNamespaces namespaces).canonicalBytes := by
    simp [canonicalBytes]
  rcases ha with rfl | ⟨namespaces, hexact⟩ <;> rcases hb with rfl | ⟨namespaces', hexact'⟩
  · rfl
  · obtain ⟨sorted, rfl, -⟩ := exact_idempotent hexact'
    exact absurd hbytes (htag sorted)
  · obtain ⟨sorted, rfl, -⟩ := exact_idempotent hexact
    exact absurd hbytes.symm (htag sorted)
  · obtain ⟨sorted, rfl, -, hadmits⟩ := exact_idempotent hexact
    obtain ⟨sorted', rfl, -, hadmits'⟩ := exact_idempotent hexact'
    rw [canonicalBytes_inj hadmits hadmits' hbytes]

end InventoryScope

/-! ### The fields of an open -/

theorem decodeNamespace_eq_ok {raw : Bytes} {ns : String} :
    decodeNamespace raw = .ok ns ↔ raw = asBytes ns := by
  rw [← fromUTF8_eq_some]
  unfold decodeNamespace
  cases String.fromUTF8? ⟨raw.toArray⟩ <;> simp

theorem mapM_decodeNamespace {raws : List Bytes} {namespaces : List String} :
    raws.mapM decodeNamespace = .ok namespaces ↔ raws = namespaces.map asBytes := by
  induction raws generalizing namespaces with
  | nil => simp [pure, Except.pure, eq_comm]
  | cons raw raws ih =>
    simp only [List.mapM_cons, bind_eq_ok_iff, pure_eq_ok, decodeNamespace_eq_ok, ih]
    constructor
    · rintro ⟨ns, rfl, namespaces, rfl, rfl⟩
      rfl
    · intro hraws
      cases namespaces with
      | nil => cases hraws
      | cons ns namespaces =>
        obtain ⟨rfl, rfl⟩ := List.cons.inj hraws
        exact ⟨ns, rfl, namespaces, rfl, rfl⟩

theorem decodeScope_eq_ok {message : InventoryOpen} {scope : InventoryScope} :
    decodeScope message = .ok scope ↔ scope.Constructed ∧ message = encodeScope scope := by
  obtain ⟨value, raws⟩ := message
  unfold decodeScope
  constructor
  · intro hok
    split at hok
    · cases hok
    · cases hok
    next hmode =>
      obtain rfl : value = _ := InventoryScopeMode.ofInt32_eq_some.mp hmode
      split_ifs at hok with hempty
      cases hok
      obtain rfl : raws = [] := List.isEmpty_iff.mp hempty
      exact ⟨.inl rfl, rfl⟩
    next hmode =>
      obtain rfl : value = _ := InventoryScopeMode.ofInt32_eq_some.mp hmode
      obtain ⟨supplied, hraws, hrest⟩ := bind_eq_ok_iff.mp hok
      obtain rfl : raws = _ := mapM_decodeNamespace.mp hraws
      split at hrest
      · cases hrest
      next made hexact =>
        split_ifs at hrest with hsame
        cases hrest
        obtain ⟨sorted, rfl, -⟩ := InventoryScope.exact_idempotent hexact
        obtain rfl : sorted = supplied := Option.some.inj (not_not.mp hsame)
        exact ⟨.inr ⟨sorted, hexact⟩, rfl⟩
  · rintro ⟨rfl | ⟨namespaces, hexact⟩, hmessage⟩
    · cases hmessage
      rfl
    · obtain ⟨sorted, rfl, hagain, -⟩ := InventoryScope.exact_idempotent hexact
      cases hmessage
      have hraws := mapM_decodeNamespace.mpr (rfl : sorted.map asBytes = sorted.map asBytes)
      simp [hraws, hagain, InventoryScope.namespaces, bind, Except.bind]

/-- **The scope codec**: a scope made by `exact` contains exactly the namespaces it was made from;
what a constructor made is read back from an open as it was; an open is accepted only as the encoding
of such a scope; and the digest is taken of bytes that tell these scopes apart. -/
theorem inventory_scope_codec :
    (∀ namespaces scope, exact namespaces = .ok scope →
      ∀ ns, scope.contains ns = true ↔ ns ∈ namespaces) ∧
    (∀ scope : InventoryScope, scope.Constructed → decodeScope (encodeScope scope) = .ok scope) ∧
    (∀ message scope, decodeScope message = .ok scope →
      message = encodeScope scope ∧
        (scope = .allNamespaces ∨ ∃ namespaces, exact namespaces = .ok scope)) ∧
    Set.InjOn canonicalBytes {scope | scope.Constructed} := by
  refine ⟨fun namespaces scope hok ns => contains_exact hok ns, ?_, ?_, ?_⟩
  · intro scope hconstructed
    exact decodeScope_eq_ok.mpr ⟨hconstructed, rfl⟩
  · intro message scope hok
    obtain ⟨hconstructed, hmessage⟩ := decodeScope_eq_ok.mp hok
    exact ⟨hmessage, hconstructed⟩
  · intro a ha b hb hbytes
    exact canonicalBytes_injOn ha hb hbytes

/-- `AllNamespaces` is accepted as well, and `exact` never makes it. -/
theorem inventory_scope_all_accepted :
    ¬ ∀ message scope, decodeScope message = .ok scope →
      message = encodeScope scope ∧ ∃ namespaces, exact namespaces = .ok scope := by
  intro hexact
  obtain ⟨-, namespaces, hok⟩ := hexact ⟨1, []⟩ .allNamespaces rfl
  obtain ⟨sorted, hscope, -⟩ := exact_idempotent hok
  cases hscope

end OrbitKV
