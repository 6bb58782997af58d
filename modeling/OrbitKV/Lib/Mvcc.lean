import OrbitKV.Lib.OrderedMap

/-!
# A store with revisions and leases

Items with the revision of their last change and the number of their changes, transactions that
compare, and leases whose end deletes the keys attached to them.
-/

namespace OrbitKV

open Std List

/-- A stored value. A lease of `0` is no lease. -/
structure Item (V : Type) where
  value : V
  lease : Int
  modRevision : Nat
  version : Nat
  deriving DecidableEq, Repr

inductive Mutation (K V : Type) where
  | put (key : K) (value : V) (lease : Int)
  | delete (key : K)
  deriving DecidableEq, Repr

/-- A comparison of a transaction. A key that is absent has revision and version `0` and no value. -/
inductive Comparison (K V : Type) where
  | modRevision (key : K) (expected : Nat)
  | value (key : K) (expected : V)
  | version (key : K) (expected : Nat)

structure Kv (K V : Type) [Ord K] where
  revision : Nat
  items : ExtTreeMap K (Item V)

structure Txn (K V : Type) where
  comparisons : List (Comparison K V)
  mutations : List (Mutation K V)

section Definitions

variable {K V : Type} [Ord K] [TransOrd K]

def Mutation.key : Mutation K V → K
  | .put key _ _ => key
  | .delete key => key

def Mutation.lease : Mutation K V → Int
  | .put _ _ lease => lease
  | .delete _ => 0

/-- What a mutation at `revision` leaves at its key. -/
def Mutation.outcome (revision : Nat) (previous : Option (Item V)) : Mutation K V → Option (Item V)
  | .put _ value lease => some ⟨value, lease, revision, previous.elim 0 (·.version) + 1⟩
  | .delete _ => none

def Mutation.applyTo (revision : Nat) (items : ExtTreeMap K (Item V)) (mutation : Mutation K V) :
    ExtTreeMap K (Item V) :=
  items.alter mutation.key fun previous => mutation.outcome revision previous

def Comparison.holds [DecidableEq V] (items : ExtTreeMap K (Item V)) : Comparison K V → Bool
  | .modRevision key expected => items[key]?.elim 0 (·.modRevision) = expected
  | .value key expected => items[key]?.any (·.value = expected)
  | .version key expected => items[key]?.elim 0 (·.version) = expected

namespace Kv

def empty : Kv K V :=
  ⟨1, ∅⟩

/-- The mutations of one transaction; a transaction that changes nothing has no revision. -/
def commit (store : Kv K V) (mutations : List (Mutation K V)) : Kv K V :=
  if mutations.isEmpty then store
  else ⟨store.revision + 1, mutations.foldl (Mutation.applyTo (store.revision + 1)) store.items⟩

def attached (store : Kv K V) (lease : Int) : List K :=
  (store.items.toList.filter fun entry => entry.2.lease = lease).map (·.1)

def expire (store : Kv K V) (lease : Int) : Kv K V :=
  store.commit ((store.attached lease).map .delete)

end Kv

end Definitions

section Lemmas

variable {K V : Type} [DecidableEq K] [Ord K] [TransOrd K] [LawfulEqOrd K]

theorem Mutation.getElem?_applyTo (revision : Nat) (items : ExtTreeMap K (Item V))
    (mutation : Mutation K V) (key : K) :
    (mutation.applyTo revision items)[key]? =
      if mutation.key = key then mutation.outcome revision items[key]? else items[key]? := by
  rw [applyTo, ExtTreeMap.getElem?_alter]
  by_cases heq : mutation.key = key
  · subst heq
    simp
  · simp [heq]

theorem getElem?_foldl_applyTo_of_notMem {revision : Nat} {mutations : List (Mutation K V)} {key : K}
    (hnot : ∀ mutation ∈ mutations, mutation.key ≠ key) (items : ExtTreeMap K (Item V)) :
    (mutations.foldl (Mutation.applyTo revision) items)[key]? = items[key]? := by
  induction mutations generalizing items with
  | nil => rfl
  | cons mutation mutations ih =>
    rw [foldl_cons, ih fun other hother => hnot other (mem_cons_of_mem _ hother),
      mutation.getElem?_applyTo, if_neg (hnot mutation mem_cons_self)]

theorem getElem?_foldl_delete {keys : List K} {key : K} (revision : Nat)
    {items : ExtTreeMap K (Item V)} (hkey : items[key]? = none ∨ key ∈ keys) :
    ((keys.map Mutation.delete).foldl (Mutation.applyTo revision) items)[key]? = none := by
  induction keys generalizing items with
  | nil => simpa using hkey
  | cons first keys ih =>
    rw [map_cons, foldl_cons]
    apply ih
    rw [Mutation.getElem?_applyTo]
    by_cases hfirst : first = key
    · simp [Mutation.key, Mutation.outcome, hfirst]
    · refine hkey.imp (fun hnone => ?_) fun hmem => ?_
      · simp [Mutation.key, hfirst, hnone]
      · exact (List.mem_cons.mp hmem).resolve_left (Ne.symm hfirst)

namespace Kv

variable {store : Kv K V}

theorem getElem?_commit_of_notMem {mutations : List (Mutation K V)} {key : K}
    (hnot : ∀ mutation ∈ mutations, mutation.key ≠ key) :
    (store.commit mutations).items[key]? = store.items[key]? := by
  unfold commit
  split
  · rfl
  · exact getElem?_foldl_applyTo_of_notMem hnot _

theorem getElem?_commit_pair {key₁ key₂ : K} {value₁ value₂ : V} {lease₁ lease₂ : Int}
    (hne : key₁ ≠ key₂) (key : K) :
    (store.commit [.put key₁ value₁ lease₁, .put key₂ value₂ lease₂]).items[key]? =
      if key₁ = key then
        some ⟨value₁, lease₁, store.revision + 1, store.items[key]?.elim 0 (·.version) + 1⟩
      else if key₂ = key then
        some ⟨value₂, lease₂, store.revision + 1, store.items[key]?.elim 0 (·.version) + 1⟩
      else store.items[key]? := by
  rw [commit, if_neg (by simp), foldl_cons, foldl_cons, foldl_nil,
    Mutation.getElem?_applyTo, Mutation.getElem?_applyTo]
  simp only [Mutation.key, Mutation.outcome]
  by_cases h₁ : key₁ = key
  · subst h₁
    simp [hne.symm]
  · simp [h₁]

theorem getElem?_commit_single {key₀ : K} {value : V} {lease : Int} (key : K) :
    (store.commit [.put key₀ value lease]).items[key]? =
      if key₀ = key then
        some ⟨value, lease, store.revision + 1, store.items[key]?.elim 0 (·.version) + 1⟩
      else store.items[key]? := by
  rw [commit, if_neg (by simp), foldl_cons, foldl_nil, Mutation.getElem?_applyTo]
  rfl

omit [DecidableEq K] in
theorem mem_attached {lease : Int} {key : K} :
    key ∈ store.attached lease ↔ ∃ item, store.items[key]? = some item ∧ item.lease = lease := by
  simp only [attached, mem_map, mem_filter, decide_eq_true_eq, Prod.exists,
    exists_and_right, exists_eq_right]
  simp only [ExtTreeMap.mem_toList_iff_getElem?_eq_some]

theorem getElem?_expire (lease : Int) (key : K) :
    (store.expire lease).items[key]? = store.items[key]?.filter (·.lease ≠ lease) := by
  by_cases hattached : key ∈ store.attached lease
  · obtain ⟨item, hitem, hlease⟩ := mem_attached.mp hattached
    have hnonempty : store.attached lease ≠ [] := ne_nil_of_mem hattached
    rw [expire, commit, if_neg (by simpa using hnonempty),
      getElem?_foldl_delete _ (.inr hattached), hitem]
    simp [Option.filter_some, hlease]
  · rw [expire, getElem?_commit_of_notMem]
    · cases hitem : store.items[key]? with
      | none => rfl
      | some item =>
        have hne : item.lease ≠ lease := fun hlease =>
          hattached (mem_attached.mpr ⟨item, hitem, hlease⟩)
        simp [Option.filter_some, hne]
    · intro mutation hmutation
      obtain ⟨other, hother, rfl⟩ := List.mem_map.mp hmutation
      rintro rfl
      exact hattached hother

omit [DecidableEq K] [LawfulEqOrd K] in
theorem revision_le_commit (mutations : List (Mutation K V)) :
    store.revision ≤ (store.commit mutations).revision := by
  unfold commit
  split
  · exact le_rfl
  · exact Nat.le_succ _

end Kv

end Lemmas

end OrbitKV
