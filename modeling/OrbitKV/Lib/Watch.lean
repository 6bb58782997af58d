import OrbitKV.Lib.Mvcc

/-!
# Reading and watching a store with revisions

The items of a store as of an earlier revision, read in pages, and the changes of each revision in
order. The revision of a commit is its position.
-/

namespace OrbitKV

open Std List Function

structure Commit (K V : Type) where
  mutations : List (Mutation K V)
  nonempty : mutations ≠ []

structure KvEvent (K V : Type) where
  key : K
  revision : Nat
  current : Option (Item V)
  previous : Option (Item V)
  deriving DecidableEq, Repr

section Definitions

variable {K V : Type} [Ord K] [TransOrd K]

def Mutation.events (revision : Nat) (items : ExtTreeMap K (Item V)) (mutation : Mutation K V) :
    List (KvEvent K V) :=
  let previous := items[mutation.key]?
  let current := mutation.outcome revision previous
  if current.isNone && previous.isNone then []
  else [⟨mutation.key, revision, current, previous⟩]

def eventsOf (revision : Nat) :
    ExtTreeMap K (Item V) → List (Mutation K V) → List (KvEvent K V)
  | _, [] => []
  | items, mutation :: mutations =>
    mutation.events revision items ++ eventsOf revision (mutation.applyTo revision items) mutations

namespace Kv

def commits (store : Kv K V) (history : List (Commit K V)) : Kv K V :=
  history.foldl (fun store made => store.commit made.mutations) store

def changes : Kv K V → List (Commit K V) → List (KvEvent K V)
  | _, [] => []
  | store, made :: history =>
    eventsOf (store.revision + 1) store.items made.mutations ++
      changes (store.commit made.mutations) history

end Kv

def itemsAt (history : List (Commit K V)) (revision : Nat) : ExtTreeMap K (Item V) :=
  (Kv.empty.commits (history.take (revision - 1))).items

def lookupAt (history : List (Commit K V)) (revision : Nat) (key : K) : Option (Item V) :=
  (itemsAt history revision)[key]?

def eventsIn (inRange : K → Bool) (history : List (Commit K V)) (low high : Nat) :
    List (KvEvent K V) :=
  (Kv.empty.changes history).filter fun event =>
    inRange event.key && decide (low < event.revision) && decide (event.revision ≤ high)

def rangeAfter (inRange : K → Bool) (items : ExtTreeMap K (Item V)) (after : Option K) :
    List (K × Item V) :=
  items.toList.filter fun entry =>
    inRange entry.1 && after.all fun cursor => (compare cursor entry.1).isLT

end Definitions

def KvEvent.applyTo {K V : Type} [DecidableEq K] (lookup : K → Option (Item V))
    (event : KvEvent K V) : K → Option (Item V) :=
  update lookup event.key event.current

def enter {K V : Type} [DecidableEq K] (lookup : K → Option (Item V)) (entry : K × Item V) :
    K → Option (Item V) :=
  update lookup entry.1 (some entry.2)

section Replay

variable {K V : Type} [DecidableEq K] [Ord K] [TransOrd K] [LawfulEqOrd K]

theorem Mutation.foldl_events (revision : Nat) (items : ExtTreeMap K (Item V))
    (mutation : Mutation K V) :
    (mutation.events revision items).foldl KvEvent.applyTo (fun key => items[key]?) =
      fun key => (mutation.applyTo revision items)[key]? := by
  funext key
  rw [mutation.getElem?_applyTo, events]
  by_cases habsent :
      (mutation.outcome revision items[mutation.key]?).isNone && items[mutation.key]?.isNone
  · rw [if_pos habsent, foldl_nil]
    rw [Bool.and_eq_true, Option.isNone_iff_eq_none, Option.isNone_iff_eq_none] at habsent
    by_cases heq : mutation.key = key
    · subst heq
      rw [if_pos rfl, habsent.1, habsent.2]
    · rw [if_neg heq]
  · rw [if_neg habsent, foldl_cons, foldl_nil, KvEvent.applyTo]
    by_cases heq : mutation.key = key
    · subst heq
      rw [if_pos rfl, update_self]
    · rw [if_neg heq, update_of_ne (Ne.symm heq)]

theorem foldl_eventsOf (revision : Nat) (items : ExtTreeMap K (Item V))
    (mutations : List (Mutation K V)) :
    (eventsOf revision items mutations).foldl KvEvent.applyTo (fun key => items[key]?) =
      fun key => (mutations.foldl (Mutation.applyTo revision) items)[key]? := by
  induction mutations generalizing items with
  | nil => rfl
  | cons mutation mutations ih =>
    rw [eventsOf, foldl_append, mutation.foldl_events, ih, foldl_cons]

omit [DecidableEq K] [LawfulEqOrd K] in
theorem revision_of_mem_eventsOf {revision : Nat} {items : ExtTreeMap K (Item V)}
    {mutations : List (Mutation K V)} {event : KvEvent K V}
    (hevent : event ∈ eventsOf revision items mutations) : event.revision = revision := by
  induction mutations generalizing items with
  | nil => cases hevent
  | cons mutation mutations ih =>
    rw [eventsOf, mem_append] at hevent
    obtain hfirst | hrest := hevent
    · simp only [Mutation.events] at hfirst
      split at hfirst
      · cases hfirst
      · rw [List.mem_singleton.mp hfirst]
    · exact ih hrest

namespace Kv

variable {store : Kv K V}

omit [DecidableEq K] [LawfulEqOrd K] in
theorem revision_commit (store : Kv K V) (made : Commit K V) :
    (store.commit made.mutations).revision = store.revision + 1 := by
  rw [commit, if_neg]
  simpa using made.nonempty

omit [DecidableEq K] [LawfulEqOrd K] in
theorem items_commit (store : Kv K V) (made : Commit K V) :
    (store.commit made.mutations).items =
      made.mutations.foldl (Mutation.applyTo (store.revision + 1)) store.items := by
  rw [commit, if_neg]
  simpa using made.nonempty

omit [DecidableEq K] [LawfulEqOrd K] in
theorem commits_append (history later : List (Commit K V)) :
    store.commits (history ++ later) = (store.commits history).commits later :=
  foldl_append

omit [DecidableEq K] [LawfulEqOrd K] in
theorem revision_commits (history : List (Commit K V)) :
    (store.commits history).revision = store.revision + history.length := by
  induction history generalizing store with
  | nil => rfl
  | cons made history ih =>
    calc
      (store.commits (made :: history)).revision =
          (store.commit made.mutations).revision + history.length := ih
      _ = store.revision + (made :: history).length := by
        rw [revision_commit, length_cons]
        omega

omit [DecidableEq K] [LawfulEqOrd K] in
theorem changes_append (history later : List (Commit K V)) :
    store.changes (history ++ later) =
      store.changes history ++ (store.commits history).changes later := by
  induction history generalizing store with
  | nil => rfl
  | cons made history ih =>
    rw [cons_append, changes, changes, ih, append_assoc]
    rfl

omit [DecidableEq K] [LawfulEqOrd K] in
theorem revision_of_mem_changes {history : List (Commit K V)} {event : KvEvent K V}
    (hevent : event ∈ store.changes history) :
    store.revision < event.revision ∧ event.revision ≤ store.revision + history.length := by
  induction history generalizing store with
  | nil => cases hevent
  | cons made history ih =>
    rw [changes, mem_append] at hevent
    rw [length_cons]
    obtain hfirst | hrest := hevent
    · have hrevision := revision_of_mem_eventsOf hfirst
      omega
    · have hrevision := ih hrest
      rw [revision_commit] at hrevision
      omega

theorem foldl_changes (history : List (Commit K V)) :
    (store.changes history).foldl KvEvent.applyTo (fun key => store.items[key]?) =
      fun key => (store.commits history).items[key]? := by
  induction history generalizing store with
  | nil => rfl
  | cons made history ih =>
    rw [changes, foldl_append, foldl_eventsOf, ← items_commit, ih]
    rfl

end Kv

section History

variable {inRange : K → Bool} {history : List (Commit K V)}
  {low high : Nat}

omit [DecidableEq K] [LawfulEqOrd K] in
theorem lookupAt_append {revision : Nat} (hrevision : revision ≤ history.length + 1)
    (later : List (Commit K V)) :
    lookupAt (history ++ later) revision = lookupAt history revision := by
  funext key
  rw [lookupAt, lookupAt, itemsAt, itemsAt, take_append_of_le_length (by omega)]

omit [DecidableEq K] [LawfulEqOrd K] in
theorem mem_eventsIn {event : KvEvent K V} :
    event ∈ eventsIn inRange history low high ↔
      event ∈ Kv.empty.changes history ∧ inRange event.key = true ∧
        low < event.revision ∧ event.revision ≤ high := by
  simp [eventsIn, and_assoc]

omit [DecidableEq K] [LawfulEqOrd K] in
theorem eventsIn_append (hhigh : high ≤ history.length + 1) (later : List (Commit K V)) :
    eventsIn inRange (history ++ later) low high = eventsIn inRange history low high := by
  rw [eventsIn, eventsIn, Kv.changes_append, filter_append]
  have hlater : ((Kv.empty.commits history).changes later).filter (fun event =>
      inRange event.key && decide (low < event.revision) && decide (event.revision ≤ high)) =
        [] := by
    rw [filter_eq_nil_iff]
    intro event hevent
    have hrevision := (Kv.revision_of_mem_changes hevent).1
    rw [Kv.revision_commits] at hrevision
    change 1 + _ < _ at hrevision
    have hlate : ¬event.revision ≤ high := by omega
    simp [hlate]
  rw [hlater, append_nil]

omit [Ord K] [TransOrd K] [LawfulEqOrd K] in
theorem foldl_applyTo_filter (events : List (KvEvent K V)) (lookup : K → Option (Item V)) {key : K}
    (hkey : inRange key = true) :
    (events.filter fun event => inRange event.key).foldl KvEvent.applyTo lookup key =
      events.foldl KvEvent.applyTo lookup key := by
  suffices hagree : ∀ lookup' : K → Option (Item V),
      (∀ key, inRange key = true → lookup' key = lookup key) →
      (events.filter fun event => inRange event.key).foldl KvEvent.applyTo lookup' key =
        events.foldl KvEvent.applyTo lookup key from hagree lookup fun _ _ => rfl
  induction events generalizing lookup with
  | nil => exact fun lookup' hlookup => hlookup key hkey
  | cons event events ih =>
    intro lookup' hlookup
    rw [filter_cons, foldl_cons]
    split
    next hin =>
      rw [foldl_cons]
      apply ih
      intro other hother
      by_cases heq : other = event.key
      · subst heq
        rw [KvEvent.applyTo, KvEvent.applyTo, update_self, update_self]
      · rw [KvEvent.applyTo, KvEvent.applyTo, update_of_ne heq,
          update_of_ne heq]
        exact hlookup other hother
    next hout =>
      apply ih
      intro other hother
      rw [KvEvent.applyTo, update_of_ne]
      · exact hlookup other hother
      · rintro rfl
        exact hout hother

theorem foldl_eventsIn (hlow : 1 ≤ low) (horder : low ≤ high)
    (hhigh : high ≤ history.length + 1) {key : K} (hkey : inRange key = true) :
    (eventsIn inRange history low high).foldl KvEvent.applyTo (lookupAt history low) key =
      lookupAt history high key := by
  obtain ⟨steps, rfl⟩ := Nat.exists_eq_add_of_le horder
  have hsplit : history.take (low + steps - 1) =
      history.take (low - 1) ++ (history.drop (low - 1)).take steps := by
    rw [show low + steps - 1 = low - 1 + steps by omega, take_add]
  have hbetween : eventsIn inRange history low (low + steps) =
      ((Kv.empty.commits (history.take (low - 1))).changes
        ((history.drop (low - 1)).take steps)).filter fun event => inRange event.key := by
    have hstart : (Kv.empty.commits (history.take (low - 1))).revision = low := by
      rw [Kv.revision_commits, length_take]
      change 1 + _ = low
      omega
    have htake : eventsIn inRange (history.take (low + steps - 1)) low (low + steps) =
        eventsIn inRange history low (low + steps) := by
      conv_rhs => rw [← take_append_drop (low + steps - 1) history]
      rw [eventsIn_append]
      rw [length_take]
      omega
    rw [← htake, hsplit, eventsIn, Kv.changes_append, filter_append]
    have hearly : (Kv.empty.changes (history.take (low - 1))).filter (fun event =>
        inRange event.key && decide (low < event.revision) &&
          decide (event.revision ≤ low + steps)) = [] := by
      rw [filter_eq_nil_iff]
      intro event hevent
      have hrevision := (Kv.revision_of_mem_changes hevent).2
      rw [length_take] at hrevision
      change event.revision ≤ 1 + _ at hrevision
      have hnot : ¬low < event.revision := by omega
      simp [hnot]
    rw [hearly, nil_append]
    apply filter_congr
    intro event hevent
    have hrevision := Kv.revision_of_mem_changes hevent
    rw [hstart, length_take, length_drop] at hrevision
    have hafter : low < event.revision := hrevision.1
    have hbefore : event.revision ≤ low + steps := by omega
    simp [hafter, hbefore]
  calc
    (eventsIn inRange history low (low + steps)).foldl KvEvent.applyTo (lookupAt history low) key =
        ((Kv.empty.commits (history.take (low - 1))).changes
          ((history.drop (low - 1)).take steps)).foldl KvEvent.applyTo
            (lookupAt history low) key := by
      rw [hbetween, foldl_applyTo_filter _ _ hkey]
    _ = ((Kv.empty.commits (history.take (low - 1))).commits
          ((history.drop (low - 1)).take steps)).items[key]? :=
      congrFun (Kv.foldl_changes _) key
    _ = lookupAt history (low + steps) key := by
      rw [← Kv.commits_append, ← hsplit, lookupAt, itemsAt]

end History

end Replay

section Pages

variable {K V : Type} [Ord K] [TransOrd K] [LawfulEqOrd K]
variable {inRange : K → Bool} {items : ExtTreeMap K (Item V)}

omit [LawfulEqOrd K] in
theorem rangeAfter_ordered (after : Option K) :
    (rangeAfter inRange items after).Pairwise fun first second =>
      compare first.1 second.1 = .lt :=
  ExtTreeMap.ordered_keys_toList.filter _

theorem rangeAfter_last {after : Option K} {page rest : List (K × Item V)} {last : K × Item V}
    (hpages : rangeAfter inRange items after = page ++ rest) (hlast : page.getLast? = some last) :
    rangeAfter inRange items (some last.1) = rest := by
  obtain ⟨first, rfl⟩ := List.getLast?_eq_some_iff.mp hlast
  have hbehind : rangeAfter inRange items (some last.1) =
      (rangeAfter inRange items after).filter fun entry => (compare last.1 entry.1).isLT := by
    have hmem : last ∈ rangeAfter inRange items after := by simp [hpages]
    have hafter : after.all fun cursor => (compare cursor last.1).isLT :=
      (Bool.and_eq_true_iff.mp (List.mem_filter.mp hmem).2).2
    rw [rangeAfter, rangeAfter, filter_filter]
    apply filter_congr
    intro entry _
    cases after with
    | none => simp [Bool.and_comm]
    | some cursor =>
      rw [Option.all_some, Ordering.isLT_iff_eq_lt] at hafter
      cases hlt : (compare last.1 entry.1).isLT with
      | false => simp [hlt]
      | true =>
        have htrans := TransCmp.lt_trans hafter (Ordering.isLT_iff_eq_lt.mp hlt)
        simp [hlt, htrans]
  have hordered : (first ++ [last] ++ rest).Pairwise fun first second =>
      compare first.1 second.1 = .lt := hpages ▸ rangeAfter_ordered after
  rw [append_assoc, pairwise_append, singleton_append, pairwise_cons]
    at hordered
  obtain ⟨-, ⟨hrest, -⟩, hfirst⟩ := hordered
  have hbefore : first.filter (fun entry => (compare last.1 entry.1).isLT) = [] := by
    rw [filter_eq_nil_iff]
    intro entry hentry
    rw [OrientedOrd.eq_swap, hfirst entry hentry last mem_cons_self]
    simp
  have hbeyond : rest.filter (fun entry => (compare last.1 entry.1).isLT) = rest := by
    rw [filter_eq_self]
    intro entry hentry
    rw [hrest entry hentry]
    rfl
  rw [hbehind, hpages, append_assoc, filter_append, hbefore, singleton_append,
    filter_cons_of_neg (by simp), hbeyond, nil_append]

theorem mem_rangeAfter_none {entry : K × Item V} :
    entry ∈ rangeAfter inRange items none ↔
      inRange entry.1 = true ∧ items[entry.1]? = some entry.2 := by
  rw [rangeAfter, mem_filter, ExtTreeMap.mem_toList_iff_getElem?_eq_some]
  simp [and_comm]

omit [Ord K] [TransOrd K] [LawfulEqOrd K] in
theorem foldl_enter [DecidableEq K] {lookup found : K → Option (Item V)} {entries : List (K × Item V)}
    (hentries : ∀ entry ∈ entries, found entry.1 = some entry.2) (key : K) :
    entries.foldl enter lookup key =
      if key ∈ entries.map (·.1) then found key else lookup key := by
  induction entries generalizing lookup with
  | nil => rfl
  | cons entry entries ih =>
    rw [foldl_cons,
      ih fun other hother => hentries other (mem_cons_of_mem _ hother), map_cons, enter]
    by_cases hkey : key = entry.1
    · subst hkey
      rw [update_self, if_pos mem_cons_self, hentries entry mem_cons_self]
      exact ite_self _
    · rw [update_of_ne hkey]
      simp only [mem_cons, hkey, false_or]

theorem foldl_enter_rangeAfter [DecidableEq K] {key : K} (hkey : inRange key = true) :
    (rangeAfter inRange items none).foldl enter (fun _ => none) key = items[key]? := by
  rw [foldl_enter fun entry hentry => (mem_rangeAfter_none.mp hentry).2]
  split
  · rfl
  next hnot =>
    cases hitem : items[key]? with
    | none => rfl
    | some item =>
      have hmem : (key, item) ∈ rangeAfter inRange items none :=
        mem_rangeAfter_none.mpr ⟨hkey, hitem⟩
      exact absurd (mem_map_of_mem hmem) hnot

end Pages

end OrbitKV
