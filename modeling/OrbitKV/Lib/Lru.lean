import Mathlib.Tactic

/-!
# Maps that remember the order of use

The interface of a linked hash map without a capacity: how each operation changes the iteration,
which runs from the least to the most recently used entry.
-/

namespace OrbitKV

open List

class LruMap (κ : outParam Type) [DecidableEq κ] (L : Type → Type) where
  empty {ν : Type} : L ν
  /-- The iteration, the least recently used entry first. -/
  entries {ν : Type} : L ν → List (κ × ν)
  /-- A read that does not count as a use. -/
  peek {ν : Type} : L ν → κ → Option ν
  /-- The effect of a read that counts as a use. -/
  touch {ν : Type} : L ν → κ → L ν
  insert {ν : Type} : L ν → κ → ν → L ν
  remove {ν : Type} : L ν → κ → L ν
  nodup {ν : Type} (cache : L ν) : ((entries cache).map Prod.fst).Nodup
  peek_eq_some {ν : Type} {cache : L ν} {key : κ} {value : ν} :
    peek cache key = some value ↔ (key, value) ∈ entries cache
  entries_empty {ν : Type} : entries (empty : L ν) = []
  entries_touch {ν : Type} (cache : L ν) (key : κ) :
    entries (touch cache key) = (peek cache key).elim (entries cache) fun value =>
      (entries cache).filter (·.1 ≠ key) ++ [(key, value)]
  entries_insert {ν : Type} (cache : L ν) (key : κ) (value : ν) :
    entries (insert cache key value) = (entries cache).filter (·.1 ≠ key) ++ [(key, value)]
  entries_remove {ν : Type} (cache : L ν) (key : κ) :
    entries (remove cache key) = (entries cache).filter (·.1 ≠ key)

namespace LruMap

variable {κ ν : Type} [DecidableEq κ] {L : Type → Type} [LruMap κ L]

def contains (cache : L ν) (key : κ) : Bool :=
  (peek cache key).isSome

def oldest (cache : L ν) : Option (κ × ν) :=
  (entries cache).head?

def total (weight : ν → Nat) (cache : L ν) : Nat :=
  ((entries cache).map fun entry => weight entry.2).sum

variable {cache : L ν} {key other : κ} {value : ν}

theorem contains_of_peek (hkey : peek cache key = some value) : contains cache key = true := by
  simp [contains, hkey]

theorem exists_peek (hmem : contains cache key = true) : ∃ value, peek cache key = some value :=
  Option.isSome_iff_exists.mp hmem

theorem contains_eq_false : contains cache key = false ↔ peek cache key = none := by
  simp [contains]

@[simp] theorem peek_empty : peek (empty : L ν) key = none := by
  refine Option.eq_none_iff_forall_ne_some.mpr fun value hvalue => ?_
  simpa [entries_empty] using peek_eq_some.mp hvalue

theorem peek_insert :
    peek (insert cache key value) other = if other = key then some value else peek cache other := by
  refine Option.ext fun found => ?_
  split
  case isTrue heq => simp [peek_eq_some, entries_insert, heq, Eq.comm (a := value)]
  case isFalse hne => simp [peek_eq_some, entries_insert, hne]

theorem peek_remove :
    peek (remove cache key) other = if other = key then none else peek cache other := by
  refine Option.ext fun found => ?_
  split
  case isTrue heq => simp [peek_eq_some, entries_remove, heq]
  case isFalse hne => simp [peek_eq_some, entries_remove, hne]

@[simp] theorem peek_touch : peek (touch cache key) other = peek cache other := by
  refine Option.ext fun found => ?_
  rw [peek_eq_some, entries_touch]
  cases hkey : peek cache key with
  | none => exact peek_eq_some.symm
  | some value =>
    by_cases heq : other = key
    · subst heq
      simp [hkey, eq_comm]
    · simp [peek_eq_some, heq]

theorem peek_oldest (holdest : oldest cache = some (key, value)) : peek cache key = some value :=
  peek_eq_some.mpr (mem_of_head? holdest)

/-! ### Weights -/

theorem entries_perm (hkey : peek cache key = some value) :
    (entries cache).Perm ((key, value) :: (entries cache).filter (·.1 ≠ key)) := by
  have hmem := peek_eq_some.mp hkey
  have hnodup := nodup cache
  generalize entries cache = list at hmem hnodup
  induction list with
  | nil => cases hmem
  | cons entry list ih =>
    rw [map_cons, nodup_cons] at hnodup
    rcases List.mem_cons.mp hmem with rfl | hmem
    · have hothers : list.filter (·.1 ≠ key) = list := by
        refine List.filter_eq_self.mpr fun entry hentry => decide_eq_true fun heq => ?_
        exact hnodup.1 (List.mem_map.mpr ⟨entry, hentry, heq⟩)
      rw [filter_cons_of_neg (by simp), hothers]
    · have hne : entry.1 ≠ key := fun heq =>
        hnodup.1 (List.mem_map.mpr ⟨(key, value), hmem, heq.symm⟩)
      rw [filter_cons_of_pos (by simpa using hne)]
      exact ((ih hmem hnodup.2).cons entry).trans (.swap _ _ _)

theorem filter_of_peek_none (hkey : peek cache key = none) :
    (entries cache).filter (·.1 ≠ key) = entries cache := by
  refine List.filter_eq_self.mpr fun entry hentry => decide_eq_true ?_
  rintro rfl
  exact absurd (hkey.symm.trans (peek_eq_some.mpr hentry)) nofun

theorem total_remove (weight : ν → Nat) (hkey : peek cache key = some value) :
    weight value + total weight (remove cache key) = total weight cache := by
  rw [total, total, entries_remove, ((entries_perm hkey).map _).sum_nat, map_cons, sum_cons]

theorem total_insert_of_none (weight : ν → Nat) (hnew : peek cache key = none) :
    total weight (insert cache key value) = total weight cache + weight value := by
  rw [total, entries_insert, filter_of_peek_none hnew, map_append, sum_append, total]
  rfl

@[simp] theorem total_touch (weight : ν → Nat) :
    total weight (touch cache key) = total weight cache := by
  rw [total, total, entries_touch]
  cases hkey : peek cache key with
  | none => rfl
  | some value =>
    rw [((entries_perm hkey).map _).sum_nat, Option.elim_some, map_append, sum_append,
      map_cons, sum_cons, Nat.add_comm]
    rfl

@[simp] theorem total_empty (weight : ν → Nat) : total weight (empty : L ν) = 0 := by
  simp [total, entries_empty]

theorem length_remove (hkey : peek cache key = some value) :
    (entries (remove cache key)).length + 1 = (entries cache).length := by
  rw [entries_remove, (entries_perm hkey).length_eq, length_cons]

theorem exists_oldest_of_total_pos {weight : ν → Nat} (hpos : 0 < total weight cache) :
    ∃ key value, oldest cache = some (key, value) := by
  cases holdest : oldest cache with
  | some entry => exact ⟨entry.1, entry.2, rfl⟩
  | none =>
    rw [oldest, head?_eq_none_iff] at holdest
    simp [total, holdest] at hpos

end LruMap

/-! ### A map -/

structure LruList (κ ν : Type) where
  entries : List (κ × ν)
  nodup : (entries.map Prod.fst).Nodup

namespace LruList

variable {κ ν : Type} [DecidableEq κ]

theorem nodup_filter (cache : LruList κ ν) (key : κ) :
    ((cache.entries.filter (·.1 ≠ key)).map Prod.fst).Nodup :=
  cache.nodup.sublist (List.filter_sublist.map _)

def remove (cache : LruList κ ν) (key : κ) : LruList κ ν :=
  ⟨cache.entries.filter (·.1 ≠ key), cache.nodup_filter key⟩

def insert (cache : LruList κ ν) (key : κ) (value : ν) : LruList κ ν where
  entries := cache.entries.filter (·.1 ≠ key) ++ [(key, value)]
  nodup := by
    rw [map_append, nodup_append]
    refine ⟨cache.nodup_filter key, by simp, ?_⟩
    simp

def peek (cache : LruList κ ν) (key : κ) : Option ν :=
  (cache.entries.find? (·.1 = key)).map (·.2)

theorem peek_eq_some {cache : LruList κ ν} {key : κ} {value : ν} :
    cache.peek key = some value ↔ (key, value) ∈ cache.entries := by
  constructor
  · intro hpeek
    obtain ⟨entry, hfind, rfl⟩ := Option.map_eq_some_iff.mp hpeek
    have hkey : entry.1 = key := by simpa using find?_some hfind
    rw [← hkey]
    exact mem_of_find?_eq_some hfind
  · intro hmem
    cases hfind : cache.entries.find? (·.1 = key) with
    | none => simpa using List.find?_eq_none.mp hfind _ hmem
    | some entry =>
      have hkey : entry.1 = key := by simpa using find?_some hfind
      have hentry := inj_on_of_nodup_map cache.nodup (mem_of_find?_eq_some hfind) hmem hkey
      simp [peek, hfind, hentry]

instance : LruMap κ (LruList κ) where
  empty := ⟨[], nodup_nil⟩
  entries := LruList.entries
  peek := peek
  touch cache key := (cache.peek key).elim cache (cache.insert key)
  insert := insert
  remove := remove
  nodup := LruList.nodup
  peek_eq_some := peek_eq_some
  entries_empty := rfl
  entries_touch cache key := by cases cache.peek key <;> rfl
  entries_insert _ _ _ := rfl
  entries_remove _ _ := rfl

end LruList

end OrbitKV
