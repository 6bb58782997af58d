import OrbitKV.Query.Budget

/-!
# The ledger of query bytes

The usage counters are sums over the reservations that are alive, so no subtraction goes below zero.
-/

namespace OrbitKV

open Std List ExtTreeMap

/-! ### Sums over reservations -/

def heldBy (p : SharedReservation → Bool) : Option SharedReservation → Nat
  | none => 0
  | some shared => if p shared then shared.held.1 else 0

def heldSum (p : SharedReservation → Bool) (reservations : List (Option SharedReservation)) : Nat :=
  (reservations.map (heldBy p)).sum

variable {p : SharedReservation → Bool} {reservations : List (Option SharedReservation)} {id : Nat}
  {place place' : Option SharedReservation}

theorem heldSum_set (p : SharedReservation → Bool) (place' : Option SharedReservation)
    (hplace : reservations[id]? = some place) :
    heldSum p (reservations.set id place') + heldBy p place =
      heldSum p reservations + heldBy p place' := by
  induction reservations generalizing id with
  | nil => simp at hplace
  | cons head reservations ih =>
    cases id with
    | zero =>
      obtain rfl : head = place := by simpa using hplace
      simp only [heldSum, set_cons_zero, map_cons, sum_cons]
      omega
    | succ id =>
      have ih := ih (List.getElem?_cons_succ.symm.trans hplace)
      simp only [heldSum, set_cons_succ, map_cons, sum_cons] at ih ⊢
      omega

theorem heldSum_append (p : SharedReservation → Bool) (reservations : List (Option SharedReservation))
    (place : Option SharedReservation) :
    heldSum p (reservations ++ [place]) = heldSum p reservations + heldBy p place := by
  simp [heldSum]

theorem exists_of_heldSum_pos (hpos : 0 < heldSum p reservations) :
    ∃ shared, some shared ∈ reservations ∧ p shared = true := by
  by_contra hnone
  push Not at hnone
  have hzero : ∀ n ∈ reservations.map (heldBy p), n = 0 := by
    intro n hn
    obtain ⟨place, hplace, rfl⟩ := List.mem_map.mp hn
    cases place with
    | none => rfl
    | some shared => simp [heldBy, hnone shared hplace]
  rw [heldSum, sum_eq_zero hzero] at hpos
  exact absurd hpos (Nat.lt_irrefl 0)

variable {shared : SharedReservation}

theorem mem_set_of_ne (hmem : some shared ∈ reservations)
    (hplace : reservations[id]? = some place) (hne : place ≠ some shared) :
    some shared ∈ reservations.set id place' := by
  obtain ⟨k, hk⟩ := mem_iff_getElem?.mp hmem
  have hk_ne : id ≠ k := by
    rintro rfl
    exact hne (Option.some.inj (hplace.symm.trans hk))
  exact mem_iff_getElem?.mpr ⟨k, by rw [getElem?_set_ne hk_ne, hk]⟩

theorem mem_set_self (hplace : reservations[id]? = some place) :
    place' ∈ reservations.set id place' := by
  have hlt := (List.getElem?_eq_some_iff.mp hplace).1
  exact mem_iff_getElem?.mpr ⟨id, by simp [hlt]⟩

/-! ### Entries -/

variable {entries : ExtTreeMap String Nat} {instanceId : String} {bytes : Nat}

theorem usedBy_insert (entries : ExtTreeMap String Nat) (instanceId other : String) (used : Nat) :
    usedBy (entries.insert instanceId used) other =
      if instanceId = other then used else usedBy entries other := by
  unfold usedBy
  rw [ExtTreeMap.getElem?_insert]
  simp only [Std.compare_eq_iff_eq]
  split <;> rfl

theorem charge_spec (entries : ExtTreeMap String Nat) {instanceId : String} {bytes : Nat}
    (hfits : usedBy entries instanceId + bytes < 2 ^ 64) :
    ∃ entries', charge entries instanceId bytes = .ok entries' ∧
      (∀ other, usedBy entries' other =
        usedBy entries other + if instanceId = other then bytes else 0) ∧
      ∀ other ∈ entries', instanceId = other ∨ other ∈ entries := by
  refine ⟨entries.insert instanceId (usedBy entries instanceId + bytes), ?_, ?_, ?_⟩
  · rw [charge, addOrPanic_of_lt hfits]
    rfl
  · intro other
    rw [usedBy_insert]
    split
    next heq => rw [heq]
    next => rfl
  · intro other hother
    rw [mem_insert, Std.compare_eq_iff_eq] at hother
    exact hother

theorem uncharge_spec (hle : bytes ≤ usedBy entries instanceId) :
    ∃ entries', uncharge entries instanceId bytes = .ok entries' ∧
      (∀ other, usedBy entries' other + (if instanceId = other then bytes else 0) =
        usedBy entries other) ∧
      ∀ other ∈ entries', if instanceId = other then 0 < usedBy entries' other
        else other ∈ entries := by
  unfold uncharge
  cases hused : entries[instanceId]? with
  | none =>
    have hzero : bytes = 0 := by simpa [usedBy, hused] using hle
    refine ⟨entries, rfl, ?_, ?_⟩
    · intro other
      simp [hzero]
    · intro other hother
      split
      next heq =>
        rw [← heq, mem_iff_isSome_getElem?, hused] at hother
        cases hother
      next => exact hother
  | some used =>
    have hle : bytes ≤ used := by simpa [usedBy, hused] using hle
    dsimp only
    rw [subOrPanic_of_le hle]
    by_cases hzero : used - bytes = 0
    · refine ⟨entries.erase instanceId, by simp [bind, Except.bind, pure, Except.pure, hzero], ?_, ?_⟩
      · intro other
        by_cases heq : instanceId = other
        · subst heq
          simp [usedBy, hused]
          omega
        · simp [usedBy, getElem?_erase, heq]
      · intro other hother
        rw [mem_erase, ne_eq, Std.compare_eq_iff_eq] at hother
        rw [if_neg hother.1]
        exact hother.2
    · refine ⟨entries.insert instanceId (used - bytes),
        by simp [bind, Except.bind, pure, Except.pure, hzero], ?_, ?_⟩
      · intro other
        rw [usedBy_insert]
        by_cases heq : instanceId = other
        · subst heq
          simp [usedBy, hused]
          omega
        · simp [heq]
      · intro other hother
        rw [usedBy_insert]
        split
        next => omega
        next hne =>
          rw [mem_insert, Std.compare_eq_iff_eq] at hother
          exact hother.resolve_left hne

/-! ### The invariant -/

def ofInstance (instanceId : String) (shared : SharedReservation) : Bool :=
  shared.reservation.instanceId = instanceId

def isSpeculative (shared : SharedReservation) : Bool :=
  shared.held.2.speculative

/-- A counter and its entries are the sums over the live reservations of a class, and an entry is that
of one of them. -/
structure Tallies (q : SharedReservation → Bool) (total : Nat) (entries : ExtTreeMap String Nat)
    (reservations : List (Option SharedReservation)) : Prop where
  total : total = heldSum q reservations
  used : ∀ instanceId, usedBy entries instanceId =
    heldSum (fun shared => ofInstance instanceId shared && q shared) reservations
  live : ∀ instanceId ∈ entries, ∃ shared, some shared ∈ reservations ∧
    (ofInstance instanceId shared && q shared) = true

section Tallies

variable {q : SharedReservation → Bool} {total : Nat} (h : Tallies q total entries reservations)

include h

/-- A change of one place that leaves what it holds of the class. -/
theorem Tallies.set (hplace : reservations[id]? = some (some shared))
    (hkept : q shared = true → ∃ kept, place' = some kept ∧ q kept = true ∧
      kept.held.1 = shared.held.1 ∧ kept.reservation.instanceId = shared.reservation.instanceId)
    (hnone : q shared = false → ∀ kept, place' = some kept → q kept = false) :
    Tallies q total entries (reservations.set id place') := by
  cases hq : q shared with
  | false =>
    have hgone (r : SharedReservation → Bool) : heldSum (fun shared => r shared && q shared)
        (reservations.set id place') = heldSum (fun shared => r shared && q shared) reservations := by
      have hset := heldSum_set (fun shared => r shared && q shared) place' hplace
      cases place' with
      | none => simpa [heldBy, hq] using hset
      | some kept => simpa [heldBy, hq, hnone hq kept rfl] using hset
    refine ⟨h.total.trans (hgone fun _ => true).symm, fun other => ?_, fun other hother => ?_⟩
    · rw [hgone, h.used]
    · obtain ⟨found, hfound, hof⟩ := h.live other hother
      refine ⟨found, mem_set_of_ne hfound hplace ?_, hof⟩
      rintro ⟨⟩
      simp [hq] at hof
  | true =>
    obtain ⟨kept, rfl, hqkept, hheld, hinstance⟩ := hkept hq
    have hof (other : String) : ofInstance other kept = ofInstance other shared := by
      simp [ofInstance, hinstance]
    have hsame (r : SharedReservation → Bool) (hr : r kept = r shared) :
        heldSum (fun shared => r shared && q shared) (reservations.set id (some kept)) =
          heldSum (fun shared => r shared && q shared) reservations := by
      have hset := heldSum_set (fun shared => r shared && q shared) (some kept) hplace
      simp only [heldBy, hq, hqkept, hr, hheld] at hset
      omega
    refine ⟨h.total.trans (hsame (fun _ => true) rfl).symm, fun other => ?_, fun other hother => ?_⟩
    · rw [hsame _ (hof other), h.used]
    · obtain ⟨found, hfound, hfits⟩ := h.live other hother
      by_cases heq : found = shared
      · subst heq
        exact ⟨kept, mem_set_self hplace, by simpa [hof, hqkept, hq] using hfits⟩
      · exact ⟨found, mem_set_of_ne hfound hplace fun hsome => heq (Option.some.inj hsome).symm,
          hfits⟩

/-- A place of the class gives bytes back. -/
theorem Tallies.reduce (place' : Option SharedReservation) (bytes : Nat)
    (hplace : reservations[id]? = some (some shared)) (hq : q shared = true)
    (hinstance : ∀ kept, place' = some kept → q kept = true →
      kept.reservation.instanceId = shared.reservation.instanceId)
    (hheld : heldBy q place' + bytes = shared.held.1) :
    bytes ≤ total ∧ ∃ entries', uncharge entries shared.reservation.instanceId bytes = .ok entries' ∧
      Tallies q (total - bytes) entries' (reservations.set id place') ∧
      ∀ other, usedBy entries' other ≤ usedBy entries other := by
  have htotal := heldSum_set q place' hplace
  have hused (other : String) : heldSum (fun shared => ofInstance other shared && q shared)
      (reservations.set id place') +
        (if shared.reservation.instanceId = other then bytes else 0) = usedBy entries other := by
    have hset := heldSum_set (fun shared => ofInstance other shared && q shared) place' hplace
    have hplace' : heldBy (fun shared => ofInstance other shared && q shared) place' =
        if shared.reservation.instanceId = other then heldBy q place' else 0 := by
      cases place' with
      | none => simp [heldBy]
      | some kept =>
        cases hkept : q kept with
        | false => simp [heldBy, hkept]
        | true => simp [heldBy, ofInstance, hkept, hinstance kept rfl hkept]
    have hshared : heldBy (fun shared => ofInstance other shared && q shared) (some shared) =
        if shared.reservation.instanceId = other then shared.held.1 else 0 := by
      simp [heldBy, ofInstance, hq]
    rw [hplace', hshared] at hset
    rw [h.used]
    split_ifs at hset ⊢ <;> omega
  rw [show heldBy q (some shared) = shared.held.1 by simp [heldBy, hq], ← h.total] at htotal
  have hself := hused shared.reservation.instanceId
  rw [if_pos rfl] at hself
  obtain ⟨entries', huncharge, hused', hmem⟩ :=
    uncharge_spec (hself ▸ Nat.le_add_left _ _ : bytes ≤ usedBy entries _)
  have hsum (other : String) := Nat.add_right_cancel ((hused' other).trans (hused other).symm)
  refine ⟨by omega, entries', huncharge, ⟨by omega, hsum, fun other hother => ?_⟩, fun other => ?_⟩
  · have hcase := hmem other hother
    split at hcase
    next =>
      rw [hsum] at hcase
      exact exists_of_heldSum_pos hcase
    next hne =>
      obtain ⟨found, hfound, hof⟩ := h.live other hcase
      refine ⟨found, mem_set_of_ne hfound hplace ?_, hof⟩
      rintro ⟨⟩
      simp [ofInstance, hne] at hof
  · have hle := hused' other
    omega

theorem Tallies.append (shared : SharedReservation) (hq : q shared = false) :
    Tallies q total entries (reservations ++ [some shared]) where
  total := by simp [heldSum_append, heldBy, hq, h.total]
  used other := by simp [heldSum_append, heldBy, hq, h.used]
  live other hother := by
    obtain ⟨found, hfound, hof⟩ := h.live other hother
    exact ⟨found, mem_append_left _ hfound, hof⟩

theorem Tallies.admit (hq : q shared = true)
    (hfits : usedBy entries shared.reservation.instanceId + shared.held.1 < 2 ^ 64) :
    ∃ entries', charge entries shared.reservation.instanceId shared.held.1 = .ok entries' ∧
      Tallies q (total + shared.held.1) entries' (reservations ++ [some shared]) ∧
      ∀ other, usedBy entries' other = usedBy entries other +
        if shared.reservation.instanceId = other then shared.held.1 else 0 := by
  obtain ⟨entries', hcharge, hused, hmem⟩ := charge_spec entries hfits
  refine ⟨entries', hcharge, ⟨?_, fun other => ?_, fun other hother => ?_⟩, hused⟩
  · simp [heldSum_append, heldBy, hq, h.total]
  · simp [heldSum_append, heldBy, hq, hused, h.used, ofInstance]
  · rcases hmem other hother with rfl | hold
    · exact ⟨shared, by simp, by simp [ofInstance, hq]⟩
    · obtain ⟨found, hfound, hof⟩ := h.live other hold
      exact ⟨found, mem_append_left _ hfound, hof⟩

theorem Tallies.empty (hgone : ∀ shared, some shared ∉ reservations) : total = 0 ∧ entries = ∅ := by
  constructor
  · by_contra hpos
    rw [h.total] at hpos
    obtain ⟨shared, hmem, -⟩ := exists_of_heldSum_pos (Nat.pos_of_ne_zero hpos)
    exact hgone shared hmem
  · have hnone : ∀ other, other ∉ entries := fun other hother => by
      obtain ⟨shared, hmem, -⟩ := h.live other hother
      exact hgone shared hmem
    exact ext_getElem? fun other => by simp [hnone other]

omit h in
theorem tallies_nil : Tallies q 0 ∅ [] where
  total := rfl
  used _ := by simp [usedBy, heldSum]
  live _ hmem := absurd hmem not_mem_empty

end Tallies

structure Usage.Matches (usage : Usage) (reservations : List (Option SharedReservation)) : Prop where
  all : Tallies (fun _ => true) usage.total usage.instances reservations
  warming : Tallies isSpeculative usage.warming usage.warmingInstances reservations

structure Usage.Within (usage : Usage) (limits : QueryLimits) : Prop where
  total : usage.total ≤ limits.global
  instances : ∀ instanceId, usedBy usage.instances instanceId ≤ limits.perInstance
  warming : usage.warming ≤ limits.global / 4
  warmingInstances : ∀ instanceId, usedBy usage.warmingInstances instanceId ≤ limits.perInstance / 4

section Changes

variable {usage : Usage} {shared kept : SharedReservation} {phase : QueryPhase}
  {limits : QueryLimits}

theorem Usage.Matches.claim (h : usage.Matches reservations) (kept : SharedReservation)
    (hplace : reservations[id]? = some (some shared)) (hspeculative : isSpeculative shared = true)
    (hheld : kept.held.1 = shared.held.1)
    (hinstance : kept.reservation.instanceId = shared.reservation.instanceId)
    (hordinary : isSpeculative kept = false) :
    ∃ usage', usage.releaseSpeculative shared.reservation.instanceId shared.held.1 = .ok usage' ∧
      usage'.Matches (reservations.set id (some kept)) ∧
      ∀ limits, usage.Within limits → usage'.Within limits := by
  obtain ⟨hle, entries, huncharge, hwarming, hused⟩ := h.warming.reduce (some kept)
    shared.held.1 hplace hspeculative (fun _ heq htrue => by
      cases heq
      rw [hordinary] at htrue
      cases htrue) (by simp [heldBy, hordinary])
  refine ⟨{ usage with warming := usage.warming - shared.held.1, warmingInstances := entries }, ?_,
    ⟨h.all.set hplace (fun _ => ⟨kept, rfl, rfl, hheld, hinstance⟩) nofun, hwarming⟩, ?_⟩
  · rw [Usage.releaseSpeculative, subOrPanic_of_le hle, huncharge]
    rfl
  · exact fun limits hwithin => { hwithin with
      warming := (Nat.sub_le _ _).trans hwithin.warming
      warmingInstances := fun other => (hused other).trans (hwithin.warmingInstances other) }

theorem Usage.Matches.release (h : usage.Matches reservations)
    (place' : Option SharedReservation) (hplace : reservations[id]? = some (some shared))
    (hphase : phase.speculative = isSpeculative shared)
    (hheld : place'.elim 0 (·.held.1) + bytes = shared.held.1)
    (hclass : ∀ kept, place' = some kept →
      kept.reservation.instanceId = shared.reservation.instanceId ∧
        isSpeculative kept = isSpeculative shared) :
    ∃ usage', usage.release shared.reservation.instanceId bytes phase = .ok usage' ∧
      usage'.Matches (reservations.set id place') ∧
      ∀ limits, usage.Within limits → usage'.Within limits := by
  have hpart (q : SharedReservation → Bool) (hq : ∀ kept, place' = some kept → q kept = true) :
      heldBy q place' + bytes = shared.held.1 := by
    cases place' with
    | none => exact hheld
    | some kept => simpa [heldBy, hq kept rfl] using hheld
  obtain ⟨hle, entries, huncharge, hall, hused⟩ := h.all.reduce place' _ hplace rfl
    (fun kept hkept _ => (hclass kept hkept).1) (hpart _ fun _ _ => rfl)
  have hwithin (limits : QueryLimits) (hwithin : usage.Within limits) :
      { usage with total := usage.total - bytes, instances := entries }.Within limits :=
    { hwithin with
      total := (Nat.sub_le _ _).trans hwithin.total
      instances := fun other => (hused other).trans (hwithin.instances other) }
  rw [Usage.release, subOrPanic_of_le hle]
  cases hspeculative : isSpeculative shared with
  | false =>
    refine ⟨{ usage with total := usage.total - bytes, instances := entries }, ?_,
      ⟨hall, h.warming.set hplace (fun htrue => ?_) fun _ kept hkept => ?_⟩, hwithin⟩
    · simp only [bind, Except.bind, hphase, hspeculative, Bool.false_eq_true, if_false, huncharge]
      rfl
    · rw [hspeculative] at htrue
      cases htrue
    · exact (hclass kept hkept).2.trans hspeculative
  | true =>
    obtain ⟨hle', warmed, huncharge', hwarming, hused'⟩ := h.warming.reduce place' _ hplace hspeculative
      (fun kept hkept _ => (hclass kept hkept).1)
      (hpart _ fun kept hkept => (hclass kept hkept).2.trans hspeculative)
    refine ⟨⟨_, entries, _, warmed⟩, ?_, ⟨hall, hwarming⟩, fun limits h' => ?_⟩
    · simp only [bind, Except.bind, hphase, hspeculative, if_true, Usage.releaseSpeculative,
        subOrPanic_of_le hle', huncharge', huncharge, pure, Except.pure]
    · exact { hwithin limits h' with
        warming := (Nat.sub_le _ _).trans h'.warming
        warmingInstances := fun other => (hused' other).trans (h'.warmingInstances other) }

theorem Usage.Matches.put (h : usage.Matches reservations)
    (hplace : reservations[id]? = some (some shared)) (hheld : kept.held.1 = shared.held.1)
    (hinstance : kept.reservation.instanceId = shared.reservation.instanceId)
    (hclass : isSpeculative kept = isSpeculative shared) :
    usage.Matches (reservations.set id (some kept)) where
  all := h.all.set hplace (fun _ => ⟨kept, rfl, rfl, hheld, hinstance⟩) nofun
  warming := h.warming.set hplace (fun htrue => ⟨kept, rfl, hclass.trans htrue, hheld, hinstance⟩)
    fun hfalse _ heq => Option.some.inj heq ▸ hclass.trans hfalse

theorem exceeds_eq_false {warming : Bool} (hwithin : usage.Within limits)
    (hfits : usage.exceeds limits instanceId bytes warming = .ok false) :
    usage.total + bytes ≤ limits.global ∧
      usedBy usage.instances instanceId + bytes ≤ limits.perInstance ∧
      (warming = true → usage.warming + bytes ≤ limits.global / 4 ∧
        usedBy usage.warmingInstances instanceId + bytes ≤ limits.perInstance / 4) := by
  have htotal := hwithin.total
  have hinstance := hwithin.instances instanceId
  have hwarming := hwithin.warming
  have hwarmInstance := hwithin.warmingInstances instanceId
  unfold Usage.exceeds at hfits
  rw [subOrPanic_of_le htotal, subOrPanic_of_le hinstance, subOrPanic_of_le hwarming,
    subOrPanic_of_le hwarmInstance] at hfits
  simp only [bind, Except.bind, pure, Except.pure] at hfits
  split at hfits
  · simp at hfits
  split at hfits
  · simp at hfits
  cases warming with
  | false => exact ⟨by omega, by omega, fun h => by cases h⟩
  | true =>
    simp only [if_true] at hfits
    split at hfits
    · simp at hfits
    have hleft := of_decide_eq_false (Except.ok.inj hfits)
    exact ⟨by omega, by omega, fun _ => ⟨by omega, by omega⟩⟩

theorem exceeds_ok (hwithin : usage.Within limits) (instanceId : String)
    (bytes : Nat) (warming : Bool) :
    ∃ result, usage.exceeds limits instanceId bytes warming = .ok result := by
  unfold Usage.exceeds
  rw [subOrPanic_of_le hwithin.total, subOrPanic_of_le (hwithin.instances instanceId),
    subOrPanic_of_le hwithin.warming, subOrPanic_of_le (hwithin.warmingInstances instanceId)]
  simp only [bind, Except.bind, pure, Except.pure]
  split
  · exact ⟨_, rfl⟩
  split
  · exact ⟨_, rfl⟩
  split
  · split <;> exact ⟨_, rfl⟩
  · exact ⟨_, rfl⟩

theorem Usage.Matches.admit (h : usage.Matches reservations)
    (hwithin : usage.Within limits) (shared : SharedReservation)
    (hfits : usage.exceeds limits shared.reservation.instanceId shared.held.1
      (isSpeculative shared) = .ok false) :
    ∃ usage', usage.admit shared.reservation.instanceId shared.held.1 (isSpeculative shared) =
        .ok usage' ∧
      usage'.Matches (reservations ++ [some shared]) ∧ usage'.Within limits := by
  obtain ⟨htotal, hinstance, hwarm⟩ := exceeds_eq_false hwithin hfits
  have hglobal := limits.global_lt
  have hper := limits.perInstance_le
  obtain ⟨entries, hcharge, hall, hused⟩ := h.all.admit rfl (hinstance.trans_lt (by omega))
  have hinstances (other : String) : usedBy entries other ≤ limits.perInstance := by
    rw [hused]
    split
    next heq => exact heq ▸ hinstance
    next => exact hwithin.instances other
  unfold Usage.admit
  rw [addOrPanic_of_lt (by omega), hcharge]
  cases hspeculative : isSpeculative shared with
  | false =>
    exact ⟨_, rfl, ⟨hall, h.warming.append shared hspeculative⟩,
      { hwithin with total := htotal, instances := hinstances }⟩
  | true =>
    obtain ⟨hwarming, hwarmInstance⟩ := hwarm hspeculative
    obtain ⟨warmed, hcharge', hwarmed, hused'⟩ :=
      h.warming.admit hspeculative (hwarmInstance.trans_lt (by omega))
    refine ⟨⟨_, entries, _, warmed⟩, ?_, ⟨hall, hwarmed⟩, htotal, hinstances, hwarming, fun other => ?_⟩
    · simp only [bind, Except.bind, if_true]
      rw [addOrPanic_of_lt (by omega), hcharge']
      rfl
    · rw [hused']
      split
      next heq => exact heq ▸ hwarmInstance
      next => exact hwithin.warmingInstances other

end Changes

/-! ### Handles -/

def handlesAt (reservations : List (Option SharedReservation)) (id : Nat) : Nat :=
  reservations[id]?.join.elim 0 (·.handles)

/-- A reservation starts with one handle. Each `clone` of it adds one, each `drop` takes one, and its
place is empty without one. -/
structure Counted (calls : List QueryCall) (reservations : List (Option SharedReservation)) :
    Prop where
  handles : ∀ id, handlesAt reservations id + calls.count (.drop id) =
    calls.count (.clone id) + if id < reservations.length then 1 else 0
  positive : ∀ shared, some shared ∈ reservations → 0 < shared.handles

section Handles

variable {shared : SharedReservation} {calls : List QueryCall} {call : QueryCall}

theorem handlesAt_append (shared : SharedReservation) (id : Nat) :
    handlesAt (reservations ++ [some shared]) id =
      handlesAt reservations id + if id = reservations.length then shared.handles else 0 := by
  grind [handlesAt]

theorem handlesAt_set (hplace : reservations[id]? = some place) (other : Nat) :
    handlesAt (reservations.set id place') other =
      if other = id then place'.elim 0 (·.handles) else handlesAt reservations other := by
  grind [handlesAt]

theorem Counted.same (h : Counted calls reservations)
    (hcall : ∀ id, call ≠ .drop id ∧ call ≠ .clone id) :
    Counted (calls ++ [call]) reservations where
  handles id := by simpa [count_singleton, hcall id] using h.handles id
  positive := h.positive

theorem Counted.append (h : Counted calls reservations) (hone : shared.handles = 1)
    (hcall : ∀ id, call ≠ .drop id ∧ call ≠ .clone id) :
    Counted (calls ++ [call]) (reservations ++ [some shared]) where
  handles id := by
    have hid := (h.same hcall).handles id
    rw [handlesAt_append, hone, length_append, length_singleton]
    split_ifs at hid ⊢ <;> omega
  positive kept hmem := by
    rcases List.mem_append.mp hmem with hold | hnew
    · exact h.positive kept hold
    · obtain rfl : kept = shared := by simpa using hnew
      omega

theorem Counted.set (h : Counted calls reservations)
    (hplace : reservations[id]? = some (some shared))
    (hcall : ∀ other, other ≠ id → call ≠ .drop other ∧ call ≠ .clone other)
    (hmoved : place'.elim 0 (·.handles) + [call].count (.drop id) =
      shared.handles + [call].count (.clone id))
    (hpositive : ∀ kept, place' = some kept → 0 < kept.handles) :
    Counted (calls ++ [call]) (reservations.set id place') where
  handles other := by
    have hother := h.handles other
    rw [handlesAt_set hplace, length_set, count_append, count_append]
    by_cases heq : other = id
    · subst heq
      rw [handlesAt, hplace] at hother
      rw [if_pos rfl]
      simp only [Option.join_some, Option.elim_some] at hother
      omega
    · rw [if_neg heq]
      simpa [count_singleton, hcall other heq] using hother
  positive kept hmem := by
    rcases mem_or_eq_of_mem_set hmem with hold | hnew
    · exact h.positive kept hold
    · exact hpositive kept hnew.symm

theorem Counted.keep (h : Counted calls reservations) {kept : SharedReservation}
    (hplace : reservations[id]? = some (some shared)) (hkept : kept.handles = shared.handles)
    (hcall : ∀ id, call ≠ .drop id ∧ call ≠ .clone id) :
    Counted (calls ++ [call]) (reservations.set id (some kept)) := by
  apply h.set hplace fun other _ => hcall other
  · simpa [count_singleton, hcall id] using hkept
  · rintro _ ⟨⟩
    exact hkept ▸ h.positive shared (mem_of_getElem? hplace)

end Handles

structure QueryLedger.Balanced (ledger : QueryLedger) (limits : QueryLimits)
    (calls : List QueryCall) : Prop where
  sums : ledger.budget.usage.Matches ledger.reservations
  within : ledger.budget.usage.Within limits
  counted : Counted calls ledger.reservations

/-! ### Calls -/

section Calls

variable {ledger : QueryLedger} {limits : QueryLimits} {shared : SharedReservation}
  {calls : List QueryCall}

theorem live_eq_some (hlive : ledger.live id = some shared) :
    ledger.reservations[id]? = some (some shared) :=
  Option.join_eq_some_iff.mp hlive

theorem unlocked_eq_some (hunlocked : ledger.unlocked id = some shared) :
    ledger.reservations[id]? = some (some shared) ∧ shared.storing = none := by
  obtain ⟨hlive, hstoring⟩ := Option.filter_eq_some_iff.mp hunlocked
  exact ⟨live_eq_some hlive, Option.isNone_iff_eq_none.mp hstoring⟩

theorem held_of_unlocked (hstoring : shared.storing = none) :
    shared.held = (shared.reservation.bytes, shared.reservation.phase) := by
  rw [SharedReservation.held, hstoring]
  rfl

section

variable (h : ledger.Balanced limits calls)

include h

theorem QueryLedger.Balanced.put {kept : SharedReservation} {call : QueryCall}
    (hplace : ledger.reservations[id]? = some (some shared)) (hheld : kept.held.1 = shared.held.1)
    (hinstance : kept.reservation.instanceId = shared.reservation.instanceId)
    (hclass : isSpeculative kept = isSpeculative shared)
    (hcounted : Counted (calls ++ [call]) (ledger.reservations.set id (some kept))) :
    (ledger.put id kept).Balanced limits (calls ++ [call]) :=
  ⟨h.sums.put hplace hheld hinstance hclass, h.within, hcounted⟩

theorem QueryLedger.Balanced.reserve (instanceId ns : String) (bytes : Nat) (mode : QueryMode) :
    ∃ ledger', ledger.reserve limits instanceId ns bytes mode = .ok ledger' ∧
      ledger'.Balanced limits (calls ++ [.reserve instanceId ns bytes mode]) := by
  let shared : SharedReservation := ⟨⟨instanceId, ns, bytes, mode.initialPhase⟩, none, 1⟩
  have hclass : mode.isWarming = isSpeculative shared := by
    cases mode <;> rfl
  have hbusy : ∀ admission, (admission = .busy ∨ admission = .tooLarge) →
      ledger.budget.reserve limits instanceId ns bytes mode = .ok (admission, ledger.budget) →
      ∃ ledger', ledger.reserve limits instanceId ns bytes mode = .ok ledger' ∧
        ledger'.Balanced limits (calls ++ [.reserve instanceId ns bytes mode]) := by
    intro admission hadmission hreserve
    refine ⟨ledger, ?_, h.sums, h.within, h.counted.same fun _ => ⟨nofun, nofun⟩⟩
    rw [QueryLedger.reserve, hreserve]
    rcases hadmission with rfl | rfl <;> rfl
  obtain ⟨result, hresult⟩ := exceeds_ok h.within instanceId bytes mode.isWarming
  by_cases hlarge : (if mode.isWarming then limits.perInstance / 4 else limits.perInstance) < bytes
  · apply hbusy .tooLarge (.inr rfl)
    simp only [QueryBudget.reserve, hlarge, if_true]
    rfl
  by_cases hforeground : mode = .warmup ∧ ledger.budget.usage.warming < ledger.budget.usage.total
  · apply hbusy .busy (.inl rfl)
    rw [QueryBudget.reserve]
    simp only [if_neg hlarge, if_pos hforeground]
    rfl
  cases result with
  | true =>
    apply hbusy .busy (.inl rfl)
    simp only [QueryBudget.reserve, hlarge, if_false, hforeground, hresult]
    rfl
  | false =>
    have hfits := hresult
    rw [hclass] at hfits
    obtain ⟨usage, hadmit, hsums, hwithin⟩ := h.sums.admit h.within shared hfits
    rw [← hclass] at hadmit
    have hadmit : ledger.budget.usage.admit instanceId bytes mode.isWarming = .ok usage := hadmit
    let budget : QueryBudget := {
      usage := usage
      totalPeak := max ledger.budget.totalPeak usage.total
      instancePeak := max ledger.budget.instancePeak
        (usedBy ledger.budget.usage.instances instanceId + bytes) }
    refine ⟨⟨budget, ledger.reservations ++ [some shared]⟩, ?_, hsums, hwithin,
      h.counted.append rfl fun _ => ⟨nofun, nofun⟩⟩
    simp only [QueryLedger.reserve, QueryBudget.reserve, hlarge, if_false, hforeground, hresult,
      bind, Except.bind, pure, Except.pure, Bool.false_eq_true, hadmit]
    rfl

theorem QueryLedger.Balanced.ready (hunlocked : ledger.unlocked id = some shared) (bytes : Nat) :
    ∃ ledger', ledger.ready id bytes shared = .ok ledger' ∧
      ledger'.Balanced limits (calls ++ [.ready id bytes]) := by
  obtain ⟨hplace, hstoring⟩ := unlocked_eq_some hunlocked
  have hheld := held_of_unlocked hstoring
  unfold QueryLedger.ready
  simp only
  split
  · exact ⟨ledger, rfl, h.sums, h.within, h.counted.same fun _ => ⟨nofun, nofun⟩⟩
  next hcheck =>
  have hphase : shared.reservation.phase = .preparing ∨ shared.reservation.phase = .preloading := by
    by_contra hphase
    exact hcheck (.inl hphase)
  have hle : bytes ≤ shared.reservation.bytes := by
    by_contra hlarge
    exact hcheck (.inr (Nat.not_le.mp hlarge))
  have hclass : shared.reservation.phase.speculative = isSpeculative shared := by
    rw [isSpeculative, hheld]
  let kept : SharedReservation :=
    { shared with storing := some (bytes, QueryLedger.readyPhase shared.reservation.phase) }
  have hkept : isSpeculative kept = isSpeculative shared := by
    rw [← hclass]
    rcases hphase with hphase | hphase <;> rw [hphase] <;>
      simp only [isSpeculative, kept, SharedReservation.held, hphase, Option.getD_some] <;> rfl
  obtain ⟨usage, hrelease, hsums, hwithin⟩ := h.sums.release (some kept) hplace hclass
    (show bytes + (shared.reservation.bytes - bytes) = shared.held.1 by rw [hheld]; omega)
    (by
      rintro _ heq
      cases heq
      exact ⟨rfl, hkept⟩)
  rw [subOrPanic_of_le hle]
  simp only [bind, Except.bind, hrelease]
  exact ⟨_, rfl, hsums, hwithin limits h.within, h.counted.keep hplace rfl fun _ => ⟨nofun, nofun⟩⟩

theorem QueryLedger.Balanced.claim (hunlocked : ledger.unlocked id = some shared) :
    ∃ ledger', ledger.claim id shared = .ok ledger' ∧
      ledger'.Balanced limits (calls ++ [.claim id]) := by
  obtain ⟨hplace, hstoring⟩ := unlocked_eq_some hunlocked
  have hheld := held_of_unlocked hstoring
  unfold QueryLedger.claim
  simp only
  split
  next hphase =>
    let kept : SharedReservation :=
      { shared with reservation := { shared.reservation with phase := .ready } }
    have hkept : kept.held = (shared.reservation.bytes, .ready) := held_of_unlocked hstoring
    obtain ⟨usage, hrelease, hsums, hwithin⟩ := h.sums.claim kept hplace
      (by rw [isSpeculative, hheld, hphase]; rfl) (by rw [hkept, hheld]) rfl
      (by rw [isSpeculative, hkept]; rfl)
    rw [hheld] at hrelease
    simp only [bind, Except.bind, hrelease]
    exact ⟨_, rfl, hsums, hwithin limits h.within,
      h.counted.keep hplace rfl fun _ => ⟨nofun, nofun⟩⟩
  · exact ⟨ledger, rfl, h.sums, h.within, h.counted.same fun _ => ⟨nofun, nofun⟩⟩

theorem QueryLedger.Balanced.drop (hlive : ledger.live id = some shared)
    (hborrowed : 1 < shared.handles ∨ shared.storing = none) :
    ∃ ledger', ledger.drop id shared = .ok ledger' ∧
      ledger'.Balanced limits (calls ++ [.drop id]) ∧
      ledger'.reservations = ledger.reservations.set id
        (if 1 < shared.handles then some { shared with handles := shared.handles - 1 } else none) := by
  have hplace := live_eq_some hlive
  have hcall : ∀ other, other ≠ id →
      QueryCall.drop id ≠ .drop other ∧ QueryCall.drop id ≠ .clone other :=
    fun other hother => ⟨fun heq => hother (QueryCall.drop.inj heq).symm, nofun⟩
  have hpositive := h.counted.positive shared (mem_of_getElem? hplace)
  unfold QueryLedger.drop
  split
  next hmore =>
    refine ⟨_, rfl, h.put hplace rfl rfl rfl (h.counted.set hplace hcall ?_ ?_), rfl⟩
    · simp
      omega
    · rintro _ ⟨⟩
      exact Nat.sub_pos_of_lt hmore
  next hlast =>
  have hheld := held_of_unlocked (hborrowed.resolve_left hlast)
  obtain ⟨usage, hrelease, hsums, hwithin⟩ := h.sums.release none hplace
    (show shared.reservation.phase.speculative = isSpeculative shared by rw [isSpeculative, hheld])
    (show 0 + shared.reservation.bytes = shared.held.1 by rw [hheld, Nat.zero_add])
    (fun _ hnone => by cases hnone)
  simp only [bind, Except.bind, hrelease]
  refine ⟨_, rfl, ⟨hsums, hwithin limits h.within, h.counted.set hplace hcall ?_ nofun⟩, rfl⟩
  simp
  omega

theorem QueryLedger.Balanced.next {call : QueryCall}
    {result : Budgeted QueryLedger} (hnext : ledger.next limits call = some result) :
    ∃ ledger', result = .ok ledger' ∧ ledger'.Balanced limits (calls ++ [call]) := by
  cases call with
  | reserve instanceId ns bytes mode =>
    cases hnext
    exact h.reserve instanceId ns bytes mode
  | ready id bytes =>
    obtain ⟨shared, hunlocked, rfl⟩ := Option.map_eq_some_iff.mp hnext
    exact h.ready hunlocked bytes
  | store id =>
    obtain ⟨shared, hlive, hstore⟩ := Option.bind_eq_some_iff.mp hnext
    obtain ⟨state, hstoring, rfl⟩ := Option.map_eq_some_iff.mp hstore
    have hheld : shared.held = state := by
      rw [SharedReservation.held, hstoring]
      rfl
    exact ⟨_, rfl, h.put (live_eq_some hlive) (congrArg Prod.fst hheld).symm rfl
      (congrArg (·.2.speculative) hheld).symm
      (h.counted.keep (live_eq_some hlive) rfl fun _ => ⟨nofun, nofun⟩)⟩
  | claim id =>
    obtain ⟨shared, hunlocked, rfl⟩ := Option.map_eq_some_iff.mp hnext
    exact h.claim hunlocked
  | restoring id =>
    obtain ⟨shared, hunlocked, rfl⟩ := Option.map_eq_some_iff.mp hnext
    obtain ⟨hplace, hstoring⟩ := unlocked_eq_some hunlocked
    refine ⟨_, rfl, ?_⟩
    unfold QueryLedger.restoring
    split
    next hphase =>
      refine h.put hplace ?_ ?_ ?_ (h.counted.keep hplace rfl fun _ => ⟨nofun, nofun⟩)
      · simp only [SharedReservation.held, hstoring, Option.getD_none]
      · rfl
      · simp only [isSpeculative, SharedReservation.held, hstoring, Option.getD_none, hphase]
        rfl
    next => exact ⟨h.sums, h.within, h.counted.same fun _ => ⟨nofun, nofun⟩⟩
  | clone id =>
    obtain ⟨shared, hlive, rfl⟩ := Option.map_eq_some_iff.mp hnext
    refine ⟨_, rfl, h.put (live_eq_some hlive) rfl rfl rfl
      (h.counted.set (live_eq_some hlive) (fun other hother => ?_) (by simp) ?_)⟩
    · exact ⟨nofun, fun heq => hother (QueryCall.clone.inj heq).symm⟩
    · rintro _ ⟨⟩
      exact Nat.succ_pos _
  | drop id =>
    obtain ⟨shared, hlive, hdrop⟩ := Option.bind_eq_some_iff.mp hnext
    split at hdrop
    · cases hdrop
    next hborrowed =>
      cases hdrop
      rw [not_and_or, Nat.not_le, Option.not_isSome_iff_eq_none] at hborrowed
      obtain ⟨ledger', hok, h', -⟩ := h.drop hlive hborrowed
      exact ⟨ledger', hok, h'⟩

end

theorem balanced_new (limits : QueryLimits) : QueryLedger.new.Balanced limits [] where
  counted := ⟨fun _ => rfl, nofun⟩
  sums := ⟨tallies_nil, tallies_nil⟩
  within :=
    { total := Nat.zero_le _
      instances := fun _ => by simp [QueryLedger.new, QueryBudget.new, usedBy]
      warming := Nat.zero_le _
      warmingInstances := fun _ => by simp [QueryLedger.new, QueryBudget.new, usedBy] }

theorem balanced_of_run (hrun : (queryMachine limits).Run .new calls ledger) :
    ledger.Balanced limits calls := by
  refine hrun.labelled (I := fun calls ledger => ledger.Balanced limits calls)
    (balanced_new limits) fun calls ledger call ledger' h hstep => ?_
  obtain ⟨result, hnext, hok⟩ := Option.bind_eq_some_iff.mp hstep
  obtain ⟨_, rfl, h'⟩ := h.next hnext
  cases hok
  exact h'

/-- **The ledger.** In every run the counters are the sums over the live reservations and within
their limits, and no call that can be made underflows a counter. A reservation has the handles that
were made and not dropped; a handle that no `ready` borrows can be dropped, and the last one empties
the place of its reservation and gives its bytes back. Nothing is left once every handle is dropped. -/
theorem query_ledger_balanced {limits : QueryLimits} {calls : List QueryCall} {ledger : QueryLedger}
    (hrun : (queryMachine limits).Run .new calls ledger) :
    let usage := ledger.budget.usage
    (usage.total = heldSum (fun _ => true) ledger.reservations ∧
      (∀ instanceId, usedBy usage.instances instanceId =
        heldSum (ofInstance instanceId) ledger.reservations) ∧
      usage.warming = heldSum isSpeculative ledger.reservations ∧
      ∀ instanceId, usedBy usage.warmingInstances instanceId =
        heldSum (fun shared => ofInstance instanceId shared && isSpeculative shared)
          ledger.reservations) ∧
    (usage.total ≤ limits.global ∧
      (∀ instanceId, usedBy usage.instances instanceId ≤ limits.perInstance) ∧
      usage.warming ≤ limits.global / 4 ∧
      ∀ instanceId, usedBy usage.warmingInstances instanceId ≤ limits.perInstance / 4) ∧
    (∀ call result, ledger.next limits call = some result → NoPanic result) ∧
    (∀ id < ledger.reservations.length, handlesAt ledger.reservations id + calls.count (.drop id) =
      calls.count (.clone id) + 1) ∧
    (∀ id shared, ledger.live id = some shared → 0 < shared.handles ∧
      (1 < shared.handles ∨ shared.storing = none →
        ∃ ledger', ledger.next limits (.drop id) = some (.ok ledger') ∧
          ledger'.reservations = ledger.reservations.set id (if 1 < shared.handles then
            some { shared with handles := shared.handles - 1 } else none) ∧
          ledger'.budget.usage.total + (if 1 < shared.handles then 0 else shared.held.1) =
            usage.total)) ∧
    ((∀ id < ledger.reservations.length, calls.count (.drop id) = calls.count (.clone id) + 1) →
      usage = ⟨0, ∅, 0, ∅⟩) := by
  have h := balanced_of_run hrun
  have hhandles : ∀ id < ledger.reservations.length,
      handlesAt ledger.reservations id + calls.count (.drop id) = calls.count (.clone id) + 1 := by
    intro id hid
    simpa [hid] using h.counted.handles id
  refine ⟨⟨h.sums.all.total, fun other => ?_, h.sums.warming.total, h.sums.warming.used⟩,
    ⟨h.within.total, h.within.instances, h.within.warming, h.within.warmingInstances⟩, ?_,
    hhandles, ?_, ?_⟩
  · simpa using h.sums.all.used other
  · intro call result hnext
    obtain ⟨ledger', rfl, -⟩ := h.next hnext
    exact noPanic_ok ledger'
  · intro id shared hlive
    have hplace := live_eq_some hlive
    refine ⟨h.counted.positive shared (mem_of_getElem? hplace), fun hborrowed => ?_⟩
    obtain ⟨ledger', hdrop, h', hreservations⟩ := h.drop hlive hborrowed
    refine ⟨ledger', ?_, hreservations, ?_⟩
    · rw [QueryLedger.next, hlive, ← hdrop]
      exact if_neg (by rw [not_and_or, Nat.not_le, Option.not_isSome_iff_eq_none]; exact hborrowed)
    · have hset := heldSum_set (fun _ => true) (if 1 < shared.handles then
        some { shared with handles := shared.handles - 1 } else none) hplace
      rw [h'.sums.all.total, h.sums.all.total, hreservations]
      split_ifs at hset ⊢
      · exact Nat.add_right_cancel hset
      · exact hset
  · intro hdropped
    have hgone (shared : SharedReservation) : some shared ∉ ledger.reservations := by
      intro hmem
      obtain ⟨id, hid⟩ := getElem?_of_mem hmem
      have hlt := (List.getElem?_eq_some_iff.mp hid).1
      have hcount := hhandles id hlt
      rw [handlesAt, hid, hdropped id hlt] at hcount
      have hpositive := h.counted.positive shared hmem
      simp only [Option.join_some, Option.elim_some] at hcount
      omega
    obtain ⟨htotal, hinstances⟩ := h.sums.all.empty hgone
    obtain ⟨hwarming, hwarmed⟩ := h.sums.warming.empty hgone
    change Usage.mk _ _ _ _ = _
    rw [htotal, hinstances, hwarming, hwarmed]

end Calls

/-- A reservation that was prepared and claimed, beside one that was dropped. Its only handle can be
dropped, and nothing is left. -/
theorem query_ledger_balanced_claimed :
    ∃ (limits : QueryLimits) (ledger : QueryLedger), ledger.budget.usage.total = 6 ∧
      ledger.budget.usage.warming = 0 ∧
      ledger.budget.usage.total = heldSum (fun _ => true) ledger.reservations ∧
      ∃ ledger', ledger.next limits (.drop 0) = some (.ok ledger') ∧
        ledger'.budget.usage.total = 0 := by
  let limits : QueryLimits := ⟨100, 80, by decide, by decide, by decide⟩
  let calls : List QueryCall := [.reserve "a" "n" 10 .prepare, .ready 0 6, .store 0, .claim 0,
    .reserve "a" "n" 5 .demand, .clone 1, .drop 1, .drop 1]
  have hrun : (calls.foldlM (QueryLedger.step limits) .new).any (fun ledger =>
      ledger.budget.usage.total = 6 ∧ ledger.budget.usage.warming = 0 ∧
        ledger.live 0 = some ⟨⟨"a", "n", 6, .ready⟩, none, 1⟩) = true := by
    decide +kernel
  obtain ⟨ledger, hrun, htotal, hwarming, hlive⟩ := (queryMachine limits).exists_run rfl hrun
  obtain ⟨hsums, -, -, -, hdrop, -⟩ := query_ledger_balanced hrun
  obtain ⟨ledger', hnext, -, hback⟩ := (hdrop 0 _ hlive).2 (.inr rfl)
  exact ⟨limits, ledger, htotal, hwarming, hsums.1, ledger', hnext,
    Nat.add_right_cancel (hback.trans (htotal.trans (Nat.zero_add 6).symm))⟩

end OrbitKV
