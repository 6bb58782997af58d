import OrbitKV.Catalog.Index

/-!
# The registration of a runtime

No call fences the view at the moment its deadline passes. A later acknowledgement does not revive
it because the deadline is compared with the clock before it is replaced.
-/

namespace OrbitKV

open List

namespace MembershipView

variable (membership : MembershipView)

def after (calls : List (Nat × MembershipCall)) : MembershipView :=
  calls.foldl (fun membership call => membership.call call.1 call.2) membership

theorem after_concat (calls : List (Nat × MembershipCall)) (now : Nat) (call : MembershipCall) :
    membership.after (calls ++ [(now, call)]) = (membership.after calls).call now call := by
  rw [after, foldl_concat]
  rfl

theorem after_append (first second : List (Nat × MembershipCall)) :
    membership.after (first ++ second) = (membership.after first).after second := by
  rw [after, foldl_append]
  rfl

def acceptedRenewal (now : Nat) : MembershipCall → List (Nat × Nat)
  | .renew sentAt ttl => if (membership.renew now sentAt ttl).1 then [(sentAt, ttl)] else []
  | .replaceMembers _ => []
  | .invalidateSnapshot => []
  | .fence => []

def acceptedRenewals (membership : MembershipView) : List (Nat × MembershipCall) → List (Nat × Nat)
  | [] => []
  | (now, call) :: calls =>
    membership.acceptedRenewal now call ++ (membership.call now call).acceptedRenewals calls

theorem acceptedRenewals_concat (calls : List (Nat × MembershipCall)) (now : Nat)
    (call : MembershipCall) :
    membership.acceptedRenewals (calls ++ [(now, call)]) =
      membership.acceptedRenewals calls ++ (membership.after calls).acceptedRenewal now call := by
  induction calls generalizing membership with
  | nil => simp [acceptedRenewals, after]
  | cons first rest ih =>
    rw [cons_append, acceptedRenewals, acceptedRenewals, ih, append_assoc]
    rfl

end MembershipView

def MembershipCall.isSnapshot : MembershipCall → Bool
  | .replaceMembers _ => true
  | .invalidateSnapshot => true
  | _ => false

def lastSnapshot (calls : List (Nat × MembershipCall)) : Option MembershipCall :=
  (calls.map (·.2)).reverse.find? (·.isSnapshot)

theorem lastSnapshot_concat (calls : List (Nat × MembershipCall)) (now : Nat)
    (call : MembershipCall) :
    lastSnapshot (calls ++ [(now, call)]) =
      if call.isSnapshot then some call else lastSnapshot calls := by
  rw [lastSnapshot, map_append, reverse_append]
  by_cases hsnapshot : call.isSnapshot
  · simp [hsnapshot]
  · simp [hsnapshot, lastSnapshot]

namespace MembershipView

/-! ### What a renewal does -/

/-- An accepted renewal found the deadline ahead of the clock and moves it to another instant ahead of
the clock; a refused one fences. -/
theorem renew_cases (membership : MembershipView) (now sentAt ttl : Nat) :
    (membership.renew now sentAt ttl = (false, membership.fence)) ∨
      (membership.fenced = false ∧ (∀ until₀, membership.validUntil = some until₀ → now < until₀) ∧
        now < sentAt + ttl / 2 ∧ membership.renew now sentAt ttl =
          (true, { membership with validUntil := some (sentAt + ttl / 2) })) := by
  unfold renew
  dsimp only
  split
  next => exact .inl rfl
  next hrefused =>
    right
    simp only [Bool.or_eq_true, not_or, Bool.not_eq_true] at hrefused
    obtain ⟨⟨hfenced, huntil⟩, hdeadline⟩ := hrefused
    cases hadd : instantAdd sentAt (ttl / 2) with
    | none => simp [hadd] at hdeadline
    | some deadline =>
      obtain rfl := eq_of_instantAdd hadd
      refine ⟨hfenced, fun until₀ hsome => ?_, ?_, rfl⟩
      · simpa [hsome] using huntil
      · simpa [hadd] using hdeadline

theorem call_renew (membership : MembershipView) (now sentAt ttl : Nat) :
    membership.call now (.renew sentAt ttl) = (membership.renew now sentAt ttl).2 :=
  rfl

/-! ### One interval -/

def Lapsed (membership : MembershipView) (now : Nat) : Prop :=
  membership.fenced = true ∨ ∃ deadline, membership.validUntil = some deadline ∧ deadline ≤ now

variable {membership : MembershipView} {now : Nat}

theorem Lapsed.mono {now later : Nat} (hlapsed : membership.Lapsed now)
    (hle : now ≤ later) : membership.Lapsed later :=
  hlapsed.imp id fun ⟨deadline, hsome, hdeadline⟩ => ⟨deadline, hsome, hdeadline.trans hle⟩

theorem Lapsed.registrationValid
    (hlapsed : membership.Lapsed now) : membership.registrationValid now = false := by
  obtain hfenced | ⟨deadline, hsome, hdeadline⟩ := hlapsed
  · simp [MembershipView.registrationValid, hfenced]
  · simp [MembershipView.registrationValid, hsome, hdeadline]

theorem Lapsed.call (hlapsed : membership.Lapsed now)
    (call : MembershipCall) : (membership.call now call).Lapsed now := by
  cases call with
  | renew sentAt ttl =>
    rw [call_renew]
    obtain hrefused | ⟨hfenced, hahead, -, -⟩ := membership.renew_cases now sentAt ttl
    · rw [hrefused]
      exact .inl rfl
    · -- neither way of being lapsed passes the guard of the renewal
      obtain hfenced' | ⟨deadline, hsome, hdeadline⟩ := hlapsed
      · rw [hfenced] at hfenced'
        cases hfenced'
      · exact absurd (hahead deadline hsome) (by omega)
  | replaceMembers members =>
    refine hlapsed.imp (fun hfenced => ?_) id
    simp [MembershipView.call, replaceMembers, hfenced]
  | invalidateSnapshot => exact hlapsed
  | fence => exact .inl rfl

theorem Lapsed.after (hlapsed : membership.Lapsed now) {calls : List (Nat × MembershipCall)}
    {later : Nat} (hclock : (now :: (calls.map (·.1) ++ [later])).Pairwise (· ≤ ·)) :
    (membership.after calls).Lapsed later := by
  induction calls generalizing membership now with
  | nil => exact hlapsed.mono (by simpa using hclock)
  | cons first rest ih =>
    rw [map_cons, cons_append, pairwise_cons] at hclock
    obtain ⟨hle, hrest⟩ := hclock
    exact ih ((hlapsed.mono (hle first.1 (by simp))).call first.2) hrest

theorem isSome_validUntil_after
    (hsome : membership.validUntil.isSome) (calls : List (Nat × MembershipCall)) :
    (membership.after calls).validUntil.isSome := by
  refine List.foldlRecOn (motive := fun membership : MembershipView => membership.validUntil.isSome)
    calls _ hsome fun membership hsome label _ => ?_
  obtain ⟨now, call⟩ := label
  cases call with
  | renew sentAt ttl =>
    rw [call_renew]
    obtain hrefused | ⟨-, -, -, haccepted⟩ := membership.renew_cases now sentAt ttl
    · rw [hrefused]
      exact hsome
    · rw [haccepted]
      rfl
  | replaceMembers | invalidateSnapshot | fence => exact hsome

theorem isSome_validUntil_of_valid
    (hvalid : membership.registrationValid now = true) : membership.validUntil.isSome := by
  cases huntil : membership.validUntil with
  | none => simp [registrationValid, huntil] at hvalid
  | some deadline => rfl

theorem lapsed_of_not_valid
    (hsome : membership.validUntil.isSome) (hvalid : membership.registrationValid now = false) :
    membership.Lapsed now := by
  obtain ⟨deadline, hdeadline⟩ := Option.isSome_iff_exists.mp hsome
  simp only [registrationValid, hdeadline, Option.any_some, Bool.and_eq_false_iff,
    Bool.not_eq_false', decide_eq_false_iff_not, not_lt] at hvalid
  exact hvalid.imp id fun hle => ⟨deadline, hdeadline, hle⟩

/-! ### What an answer rests on -/

structure Evidenced (membership : MembershipView) (owner : CacheOwner)
    (calls : List (Nat × MembershipCall)) : Prop where
  snapshot : membership.ready = true → ∃ members,
    lastSnapshot calls = some (.replaceMembers members) ∧
      membership.members = memberMap (members.map (·.2))
  renewal : ∀ deadline, membership.validUntil = some deadline → ∃ sentAt ttl,
    ((new owner).acceptedRenewals calls).getLast? = some (sentAt, ttl) ∧ deadline = sentAt + ttl / 2
  unfenced : membership.fenced = false → ∀ now, (now, .fence) ∉ calls

theorem fenced_of_call {call : MembershipCall} (hfenced : (membership.call now call).fenced = false) :
    membership.fenced = false := by
  cases call with
  | renew sentAt ttl =>
    rw [call_renew] at hfenced
    obtain hrefused | ⟨hopen, -⟩ := membership.renew_cases now sentAt ttl
    · rw [hrefused] at hfenced
      cases hfenced
    · exact hopen
  | replaceMembers members => exact (Bool.or_eq_false_iff.mp hfenced).1
  | invalidateSnapshot => exact hfenced
  | fence => cases hfenced

theorem Evidenced.concat {owner : CacheOwner} {calls : List (Nat × MembershipCall)}
    (h : membership.Evidenced owner calls) (hview : (new owner).after calls = membership)
    (now : Nat) (call : MembershipCall) :
    (membership.call now call).Evidenced owner (calls ++ [(now, call)]) where
  snapshot := by
    rw [lastSnapshot_concat]
    cases call with
    | renew sentAt ttl =>
      rw [call_renew]
      obtain hrenew | ⟨-, -, -, hrenew⟩ := membership.renew_cases now sentAt ttl <;> rw [hrenew] <;>
        exact h.snapshot
    | replaceMembers members => exact fun _ => ⟨members, rfl, rfl⟩
    | invalidateSnapshot => exact nofun
    | fence => exact h.snapshot
  renewal := by
    rw [acceptedRenewals_concat, hview]
    cases call with
    | renew sentAt ttl =>
      rw [call_renew, acceptedRenewal]
      obtain hrenew | ⟨-, -, -, hrenew⟩ := membership.renew_cases now sentAt ttl <;> rw [hrenew]
      · rw [if_neg nofun, append_nil]
        exact h.renewal
      · rintro _ ⟨⟩
        exact ⟨sentAt, ttl, getLast?_concat, rfl⟩
    | replaceMembers | invalidateSnapshot | fence =>
      rw [acceptedRenewal, append_nil]
      exact h.renewal
  unfenced hfenced later hmem := by
    rcases List.mem_append.mp hmem with hold | hnew
    · exact h.unfenced (fenced_of_call hfenced) later hold
    · cases List.mem_singleton.mp hnew
      cases hfenced

theorem evidenced_after (owner : CacheOwner) (calls : List (Nat × MembershipCall)) :
    ((new owner).after calls).Evidenced owner calls := by
  induction calls using List.reverseRecOn with
  | nil => exact ⟨nofun, nofun, fun _ _ => not_mem_nil⟩
  | append_singleton calls label ih =>
    rw [after_concat]
    exact ih.concat rfl label.1 label.2

theorem getElem?_memberMap (owners : List CacheOwner) (incarnation : Uuid) :
    (memberMap owners)[incarnation]? =
      owners.reverse.find? fun owner => owner.incarnation = incarnation := by
  induction owners using List.reverseRecOn with
  | nil => simp [memberMap]
  | append_singleton owners owner ih =>
    rw [memberMap, foldl_concat, ← memberMap, Std.ExtTreeMap.getElem?_insert, ih,
      reverse_append, reverse_singleton, singleton_append, find?_cons]
    by_cases hsame : owner.incarnation = incarnation
    · simp [hsame]
    · simp [hsame]

theorem mem_of_getElem?_memberMap {members : List (String × CacheOwner)} {incarnation : Uuid}
    {owner : CacheOwner} (hmember : (memberMap (members.map (·.2)))[incarnation]? = some owner) :
    ∃ name, (name, owner) ∈ members := by
  rw [getElem?_memberMap] at hmember
  have hmem := mem_of_find?_eq_some hmember
  rw [mem_reverse, mem_map] at hmem
  obtain ⟨⟨name, member⟩, hmem, rfl⟩ := hmem
  exact ⟨name, hmem⟩

theorem resolve_eq_some {incarnation : Uuid}
    {member : CacheOwner} (hresolve : membership.resolve now incarnation = some member) :
    membership.fenced = false ∧ membership.ready = true ∧
      (∃ deadline, membership.validUntil = some deadline ∧ now < deadline) ∧
      membership.members[incarnation]? = some member := by
  unfold resolve expired at hresolve
  split at hresolve
  · cases hresolve
  · rename_i hrefused
    simp only [Bool.or_eq_true, not_or, Bool.not_eq_true, Bool.not_eq_true',
      Bool.not_eq_false] at hrefused
    obtain ⟨⟨hfenced, hready⟩, huntil⟩ := hrefused
    cases hsome : membership.validUntil with
    | none => simp [hsome] at huntil
    | some deadline =>
      refine ⟨hfenced, hready, ⟨deadline, rfl, ?_⟩, hresolve⟩
      simpa [hsome] using huntil

theorem resolve_of_permits {owner : CacheOwner} (hpermits : membership.permits now owner = true) :
    membership.resolve now owner.incarnation = some owner := by
  simp only [permits, Bool.and_eq_true, Bool.not_eq_true', decide_eq_true_eq] at hpermits
  obtain ⟨⟨⟨hfenced, hready⟩, hexpired⟩, hmember⟩ := hpermits
  simp [resolve, hfenced, hready, hexpired, hmember]

end MembershipView

open MembershipView

/-- **One interval.** A registration that was valid and has ceased to be is never valid again, and an
owner is answered only if no call has fenced the view, on the evidence of the last snapshot and of the
last accepted renewal. -/
theorem registration_single_interval (owner : CacheOwner) :
    (∀ (first second third : List (Nat × MembershipCall)) (t₁ t₂ t₃ : Nat),
      (first.map (·.1) ++ t₁ :: (second.map (·.1) ++ t₂ :: (third.map (·.1) ++ [t₃]))).Pairwise
        (· ≤ ·) →
      ((new owner).after first).registrationValid t₁ = true →
      ((new owner).after (first ++ second)).registrationValid t₂ = false →
      ((new owner).after (first ++ second ++ third)).registrationValid t₃ = false) ∧
    (∀ (calls : List (Nat × MembershipCall)) (now : Nat) (member : CacheOwner),
      ((new owner).after calls).permits now member = true ∨
        (∃ incarnation, ((new owner).after calls).resolve now incarnation = some member) →
      (((new owner).after calls).fenced = false ∧ ∀ time, (time, .fence) ∉ calls) ∧
        (∃ members name, lastSnapshot calls = some (.replaceMembers members) ∧
          (name, member) ∈ members) ∧
        ∃ sentAt ttl, ((new owner).acceptedRenewals calls).getLast? = some (sentAt, ttl) ∧
          now < sentAt + ttl / 2) := by
  constructor
  · intro first second third t₁ t₂ t₃ hclock hvalid hceased
    rw [after_append] at hceased
    have hsome := isSome_validUntil_after (isSome_validUntil_of_valid hvalid) second
    rw [after_append, after_append]
    apply Lapsed.registrationValid
    apply (lapsed_of_not_valid hsome hceased).after
    -- the clock from the second instant on
    exact (List.pairwise_append.mp (List.pairwise_append.mp hclock).2.1.of_cons).2.1
  · intro calls now member hanswer
    obtain ⟨incarnation, hresolve⟩ :
        ∃ incarnation, ((new owner).after calls).resolve now incarnation = some member :=
      hanswer.elim (fun hpermits => ⟨_, resolve_of_permits hpermits⟩) id
    have hevidence := evidenced_after owner calls
    obtain ⟨hfenced, hready, ⟨deadline, hdeadline, hahead⟩, hmember⟩ := resolve_eq_some hresolve
    obtain ⟨members, hsnapshot, hfiled⟩ := hevidence.snapshot hready
    obtain ⟨sentAt, ttl, hlast, rfl⟩ := hevidence.renewal deadline hdeadline
    rw [hfiled] at hmember
    obtain ⟨name, hname⟩ := mem_of_getElem?_memberMap hmember
    exact ⟨⟨hfenced, hevidence.unfenced hfenced⟩, ⟨members, name, hsnapshot, hname⟩, sentAt, ttl, hlast,
      hahead⟩

/-- A registration that lapses at 15: the acknowledgement of a renewal sent at 14 arrives at 16. -/
theorem registration_single_interval_lapsed :
    let owner : CacheOwner := ⟨"self:7000", 1⟩
    let first : List (Nat × MembershipCall) :=
      [(1, .replaceMembers [("a", owner)]), (2, .renew 0 30)]
    ((new owner).after first).permits 3 owner = true ∧
      (∃ sentAt ttl, ((new owner).acceptedRenewals first).getLast? = some (sentAt, ttl) ∧
        3 < sentAt + ttl / 2) ∧
      ((new owner).after (first ++ [] ++ [(16, .renew 14 100)])).registrationValid 17 = false := by
  have hpermits : ((new ⟨"self:7000", 1⟩).after
      [(1, .replaceMembers [("a", ⟨"self:7000", 1⟩)]), (2, .renew 0 30)]).permits 3
        ⟨"self:7000", 1⟩ = true := by decide +kernel
  refine ⟨hpermits, ((registration_single_interval _).2 _ _ _ (.inl hpermits)).2.2, ?_⟩
  exact (registration_single_interval _).1 _ [] _ 3 15 17 (by decide) (by decide +kernel)
    (by decide +kernel)

end OrbitKV
