import OrbitKV.Lib.OrderedMap
import OrbitKV.Proof.RestoreRuns

/-!
# Plans in the shared bank

No call writes into a live range, and a range is given up only in states that cannot be claimed, so
a claim returns the bytes of the publication that granted it.
-/

namespace OrbitKV

open Std Area ExtTreeMap Function

open RestoreCompletions

/-! ### Ranges -/

structure PlanRanges (plans : ExtTreeMap Nat Span) : Prop where
  apart : ∀ (id other : Nat) (span span' : Span), plans[id]? = some span →
    plans[other]? = some span' → id ≠ other → span.Apart span'
  aligned : ∀ (id : Nat) (span : Span), plans[id]? = some span →
    span.start % 8 = 0 ∧ span.stop % 8 = 0
  inside : ∀ (id : Nat) (span : Span), plans[id]? = some span →
    span.start < span.stop ∧ span.stop ≤ restorePlanBytes

section Ranges

variable {plans : ExtTreeMap Nat Span} {id : Nat} {size : Nat}

theorem planRanges_empty : PlanRanges ∅ := by
  constructor <;> simp

theorem PlanRanges.mono (hranges : PlanRanges plans) {plans' : ExtTreeMap Nat Span}
    (hsub : ∀ (id : Nat) (span : Span), plans'[id]? = some span → plans[id]? = some span) :
    PlanRanges plans' where
  apart a b span span' hspan hspan' :=
    hranges.apart a b span span' (hsub a span hspan) (hsub b span' hspan')
  aligned a span hspan := hranges.aligned a span (hsub a span hspan)
  inside a span hspan := hranges.inside a span (hsub a span hspan)

def sortedRanges (plans : ExtTreeMap Nat Span) : List Span :=
  (plans.toList.map Prod.snd).mergeSort fun a b => a.start ≤ b.start

theorem mem_sortedRanges {span : Span} :
    span ∈ sortedRanges plans ↔ ∃ id : Nat, plans[id]? = some span := by
  unfold sortedRanges
  rw [(List.mergeSort_perm _ _).mem_iff, List.mem_map]
  constructor
  · rintro ⟨⟨id, span⟩, hmem, rfl⟩
    exact ⟨id, mem_toList_iff_getElem?_eq_some.mp hmem⟩
  · rintro ⟨id, hspan⟩
    exact ⟨(id, span), mem_toList_iff_getElem?_eq_some.mpr hspan, rfl⟩

theorem PlanRanges.ascending (hranges : PlanRanges plans) : Ascending 0 (sortedRanges plans) := by
  apply ascending_of_sorted
  · refine List.Pairwise.imp of_decide_eq_true (List.pairwise_mergeSort ?_ ?_ _)
    · intro a b c hab hbc
      exact decide_eq_true ((of_decide_eq_true hab).trans (of_decide_eq_true hbc))
    · intro a b
      simpa using Nat.le_total a.start b.start
  · refine (List.mergeSort_perm _ _).symm.pairwise ?_ Span.Apart.symm
    rw [List.pairwise_map]
    refine (distinct_fst_toList plans).imp_of_mem fun {a b} ha hb hne => ?_
    exact hranges.apart a.1 b.1 a.2 b.2 (mem_toList_iff_getElem?_eq_some.mp ha)
      (mem_toList_iff_getElem?_eq_some.mp hb) hne
  · intro span hspan
    obtain ⟨id, hid⟩ := mem_sortedRanges.mp hspan
    exact (hranges.inside id span hid).1
  · exact fun span _ => Nat.zero_le _

theorem PlanRanges.freePlace (hranges : PlanRanges plans) (size : Nat) :
    OrbitKV.freePlace plans size % 8 = 0 ∧ ∀ (id : Nat) (span : Span), plans[id]? = some span →
      Span.Apart ⟨OrbitKV.freePlace plans size, OrbitKV.freePlace plans size + size⟩ span := by
  constructor
  · rcases firstFit_cases size (sortedRanges plans) 0 with heq | ⟨span, hspan, heq⟩
    · exact congrArg (· % 8) heq
    · obtain ⟨id, hid⟩ := mem_sortedRanges.mp hspan
      exact (congrArg (· % 8) heq).trans (hranges.aligned id span hid).2
  · intro id span hspan
    exact (firstFit_apart hranges.ascending).2 span (mem_sortedRanges.mpr ⟨id, hspan⟩)

theorem PlanRanges.insert (hranges : PlanRanges plans) {span : Span}
    (hfree : ∀ (other : Nat) (span' : Span), plans[other]? = some span' → span.Apart span')
    (haligned : span.start % 8 = 0 ∧ span.stop % 8 = 0)
    (hinside : span.start < span.stop ∧ span.stop ≤ restorePlanBytes) :
    PlanRanges (plans.insert id span) := by
  constructor
  · intro a b first last hfirst hlast hne
    have hlast := getElem?_insert_eq_some hlast
    rcases getElem?_insert_eq_some hfirst with ⟨rfl, rfl⟩ | ⟨ha, hfirst⟩
    · rcases hlast with ⟨rfl, -⟩ | ⟨-, hlast⟩
      · exact absurd rfl hne
      · exact hfree b last hlast
    · rcases hlast with ⟨rfl, rfl⟩ | ⟨-, hlast⟩
      · exact (hfree a first hfirst).symm
      · exact hranges.apart a b first last hfirst hlast hne
  · intro a first hfirst
    rcases getElem?_insert_eq_some hfirst with ⟨rfl, rfl⟩ | ⟨-, hfirst⟩
    · exact haligned
    · exact hranges.aligned a first hfirst
  · intro a first hfirst
    rcases getElem?_insert_eq_some hfirst with ⟨rfl, rfl⟩ | ⟨-, hfirst⟩
    · exact hinside
    · exact hranges.inside a first hfirst

end Ranges

/-! ### Calls that leave plans alone -/

structure Quiet (area area' : Area) : Prop where
  bank : area'.bank = area.bank
  offsets : ∀ slot, area'.fields slot .planOffset = area.fields slot .planOffset
  lengths : ∀ slot, area'.fields slot .planLength = area.fields slot .planLength
  plans : ∀ (id : Nat) (span : Span), area'.plans[id]? = some span → area.plans[id]? = some span
  granted : ∀ (id : Nat) (state : GrantState), state.isGranted = true →
    area'.tags (slotOf id) = tagOf id state →
    area.tags (slotOf id) = tagOf id state ∧ area'.plans[id]? = area.plans[id]?

section Quiet

variable {area : Area} {id : Nat} {source : GrantState}

theorem Quiet.refl (area : Area) : Quiet area area :=
  ⟨rfl, fun _ => rfl, fun _ => rfl, fun _ _ h => h, fun _ _ _ h => ⟨h, rfl⟩⟩

theorem Quiet.trans {first middle last : Area} (hfirst : Quiet first middle)
    (hlast : Quiet middle last) : Quiet first last where
  bank := hlast.bank.trans hfirst.bank
  offsets slot := (hlast.offsets slot).trans (hfirst.offsets slot)
  lengths slot := (hlast.lengths slot).trans (hfirst.lengths slot)
  plans id span hspan := hfirst.plans id span (hlast.plans id span hspan)
  granted id state hgranted htag := by
    obtain ⟨hmiddle, hplans⟩ := hlast.granted id state hgranted htag
    obtain ⟨htag, hplans'⟩ := hfirst.granted id state hgranted hmiddle
    exact ⟨htag, hplans.trans hplans'⟩

theorem quiet_erase (hstate : area.InState id source) (hsource : source.isGranted = false) :
    Quiet area { area with plans := area.plans.erase id } where
  bank := rfl
  offsets _ := rfl
  lengths _ := rfl
  plans _ _ hspan := (getElem?_erase_eq_some hspan).2
  granted other state hgranted htag := by
    refine ⟨htag, ?_⟩
    have hne : id ≠ other := by
      rintro rfl
      rw [(tagOf_inj.mp (hstate.tag.symm.trans htag)).2, hgranted] at hsource
      cases hsource
    simp [getElem?_erase, hne]

def Access.Peaceful : Access → Prop
  | .exchange _ _ new _ => ∀ id state, state.isGranted = true → new ≠ tagOf id state
  | .writeResult .. => True
  | access => access.Calm

theorem Access.Calm.peaceful {access : Access} (hcalm : access.Calm) : access.Peaceful := by
  cases access with
  | exchange => exact hcalm.elim
  | writeResult => trivial
  | _ => exact hcalm

theorem moves_peaceful {id : Nat} {source target : GrantState} {note : Option RestoreResult}
    (htarget : target.isGranted = false) : Moves Access.Peaceful id source target note := by
  intro _ other state hgranted heq
  rw [(tagOf_inj.mp heq).2, hgranted] at htarget
  cases htarget

theorem RestoreCall.Does.peaceful {call : RestoreCall} {access : Access} (hdoes : call.Does access)
    (hcalm : call.isCalm = true) : access.Peaceful := by
  cases hdoes with
  | calm haccess => exact haccess.peaceful
  | @move id source target note hpos _ hmoves _ =>
    refine moves_peaceful ?_ hpos
    cases call <;> cases hcalm <;> cases target <;> first | rfl | (cases source <;> cases hmoves)
  | reserve =>
    intro other state hgranted heq
    rw [← (tagOf_inj.mp heq).2] at hgranted
    cases hgranted
  | write => trivial
  | plan hnot =>
    rw [hcalm] at hnot
    cases hnot

theorem Area.storeField_fields (area : Area) {slot other : Slot} {field field' : Field}
    (hne : field ≠ field') (value : Nat) :
    (area.storeField slot field value).fields other field' = area.fields other field' := by
  unfold storeField
  by_cases hslot : other = slot
  · rw [hslot]
    simp only [update_self, update_of_ne hne.symm]
  · simp only [update_of_ne hslot]

theorem quiet_perform (access : Access) (area : Area) (hpeaceful : access.Peaceful) :
    Quiet area (access.perform area).2 := by
  cases access with
  | exchange slot old new note =>
    rcases area.exchange_cases slot old new note with ⟨-, hresult⟩ | ⟨-, hresult⟩
    · rw [Access.perform, hresult]
      refine ⟨rfl, fun _ => rfl, fun _ => rfl, fun _ _ h => h, fun id state hgranted htag => ?_⟩
      by_cases hslot : slotOf id = slot
      · simp only [exchanged, hslot, update_self] at htag
        exact absurd htag (hpeaceful id state hgranted)
      · simp only [exchanged, update_of_ne hslot] at htag
        exact ⟨htag, rfl⟩
    · rw [Access.perform, hresult]
      exact Quiet.refl area
  | fetchNext =>
    dsimp only [Access.perform, fetchNext]
    split <;> exact ⟨rfl, fun _ => rfl, fun _ => rfl, fun _ _ h => h, fun _ _ _ h => ⟨h, rfl⟩⟩
  | storeField slot field value =>
    obtain rfl : field = .claimed := hpeaceful
    exact ⟨rfl, fun _ => area.storeField_fields (by decide) value,
      fun _ => area.storeField_fields (by decide) value, fun _ _ h => h, fun _ _ _ h => ⟨h, rfl⟩⟩
  | writeResult slot result =>
    exact ⟨rfl, fun _ => storeField_fields _ (by decide) _,
      fun _ => storeField_fields _ (by decide) _, fun _ _ h => h, fun _ _ _ h => ⟨h, rfl⟩⟩
  | placePlan => exact hpeaceful.elim
  | removePlan => exact hpeaceful.elim
  | _ => exact ⟨rfl, fun _ => rfl, fun _ => rfl, fun _ _ h => h, fun _ _ _ h => ⟨h, rfl⟩⟩

theorem quiet_run {α : Type} {op : Op α} (hall : op.All Access.Peaceful) (area : Area) :
    Quiet area (op.run area).2 :=
  Process.exec_relates Access.perform Quiet.refl (fun _ _ _ => Quiet.trans) quiet_perform hall area

theorem quiet_releasePlan (id : Nat) (area : Area) : Quiet area ((releasePlan id).run area).2 := by
  unfold releasePlan
  rcases run_offset_cases area id _ with ⟨error, hrun⟩ | ⟨-, -, hrun⟩
  · rw [hrun]
    exact Quiet.refl area
  rw [hrun]
  rcases run_state_cases area id _ with ⟨error, hrun⟩ | ⟨source, hstate, hrun⟩
  · rw [hrun]
    exact Quiet.refl area
  rw [hrun]
  cases source with
  | revoked | drained | partDrained => exact quiet_erase hstate rfl
  | active | activeMore =>
    rw [run_loadField]
    split
    · exact quiet_erase hstate rfl
    · exact Quiet.refl area
  | _ => exact Quiet.refl area

theorem quiet_reap (id : Nat) (fault : Option String) (area : Area) :
    Quiet area ((reap id fault).run area).2 := by
  unfold reap
  rcases run_state_cases area id _ with ⟨error, hrun⟩ | ⟨source, hstate, hrun⟩
  · rw [hrun]
    exact Quiet.refl area
  rw [hrun]
  cases source with
  | drained =>
    rw [run_removePlan]
    refine (quiet_erase hstate rfl).trans (quiet_run ?_ _)
    exact (all_transition (moves_peaceful rfl)).bind fun _ => all_signal fault
  | revoked =>
    rw [run_removePlan]
    refine (quiet_erase hstate rfl).trans (quiet_run ?_ _)
    refine (all_offset id).bind fun slot => all_act trivial ?_
    exact fun _ => (all_transition (moves_peaceful rfl)).bind fun _ => all_signal fault
  | _ => exact Quiet.refl area

end Quiet

/-! ### What a granted operation can rely on -/

def grantedPlan (id : Nat) :
    RestoreCall × Option (Except CompletionError RestoreReply) → Option (List UInt8)
  | (.publishLocal other plan _, some (.ok (.flag true))) => if other = id then some plan else none
  | _ => none

def lastGranted (replies : List (RestoreCall × Option (Except CompletionError RestoreReply)))
    (id : Nat) : Option (List UInt8) :=
  replies.foldl (fun last reply => (grantedPlan id reply).or last) none

theorem lastGranted_append
    (replies : List (RestoreCall × Option (Except CompletionError RestoreReply)))
    (reply : RestoreCall × Option (Except CompletionError RestoreReply)) (id : Nat) :
    lastGranted (replies ++ [reply]) id = (grantedPlan id reply).or (lastGranted replies id) := by
  rw [lastGranted, List.foldl_append]
  rfl

structure Area.Holds (area : Area) (id : Nat) (plan : List UInt8) : Prop where
  nonempty : plan ≠ []
  range : area.plans[id]? = some ⟨area.fields (slotOf id) .planOffset,
    area.fields (slotOf id) .planOffset + wordCount plan.length * 8⟩
  length : area.fields (slotOf id) .planLength = plan.length
  bytes : loadBytes area.bank (area.fields (slotOf id) .planOffset / 8) plan.length = plan

/-- The ranges are in order, and what can be claimed is the last plan that was granted. -/
structure RestoreHistory.Banked (s : RestoreHistory) : Prop where
  ranges : PlanRanges s.area.plans
  granted : ∀ id state, state.isGranted = true → s.area.tags (slotOf id) = tagOf id state →
    ∃ plan, lastGranted s.replies id = some plan ∧ s.area.Holds id plan

theorem banked_new : RestoreHistory.Banked ⟨new, []⟩ where
  ranges := planRanges_empty
  granted id state hgranted htag := by
    have hcode : 0 < state.code := by
      cases state with
      | granted | grantedMore => decide
      | _ => cases hgranted
    have hzero : 0 = tagOf id state := htag
    unfold tagOf at hzero
    omega

theorem RestoreHistory.Banked.quiet {s : RestoreHistory} (hbanked : s.Banked) {area : Area}
    (hquiet : Quiet s.area area)
    {reply : RestoreCall × Option (Except CompletionError RestoreReply)}
    (hreply : ∀ id, grantedPlan id reply = none) :
    RestoreHistory.Banked ⟨area, s.replies ++ [reply]⟩ where
  ranges := hbanked.ranges.mono hquiet.plans
  granted id state hgranted htag := by
    obtain ⟨htag, hplans⟩ := hquiet.granted id state hgranted htag
    obtain ⟨plan, hlast, hholds⟩ := hbanked.granted id state hgranted htag
    refine ⟨plan, ?_, hholds.nonempty, ?_, ?_, ?_⟩
    · rw [lastGranted_append, hreply, Option.none_or, hlast]
    · rw [hplans, hquiet.offsets, hholds.range]
    · rw [hquiet.lengths, hholds.length]
    · rw [hquiet.bank, hquiet.offsets, hholds.bytes]

/-! ### Publications -/

def planSize (plan : List UInt8) : Nat :=
  wordCount plan.length * 8

def Area.placeFor (area : Area) (plan : List UInt8) : Nat :=
  freePlace area.plans (planSize plan)

def Area.placed (area : Area) (id : Nat) (plan : List UInt8) : Area :=
  { area with
    bank := storeBytes area.bank (area.placeFor plan / 8) plan
    plans := area.plans.insert id ⟨area.placeFor plan, area.placeFor plan + planSize plan⟩ }

def Area.published (area : Area) (id : Nat) (plan : List UInt8) (more : Bool) : Area :=
  ((((area.placed id plan).storeField (slotOf id) .planOffset (area.placeFor plan)).storeField
    (slotOf id) .planLength plan.length).storeField (slotOf id) .claimed 0).exchanged
      ⟨slotOf id, tagOf id .preparing, tagOf id (if more then .grantedMore else .granted), none⟩

structure Area.Publishable (area : Area) (id : Nat) (plan : List UInt8) : Prop where
  preparing : area.InState id .preparing
  nonempty : plan ≠ []
  absent : area.plans[id]? = none
  fits : area.placeFor plan + planSize plan ≤ restorePlanBytes

section Publish

variable {area : Area} {id : Nat} {plan : List UInt8} {more : Bool}

theorem Area.placePlan_eq (area : Area) (id : Nat) (plan : List UInt8) : area.placePlan id plan =
    if area.plans[id]? ≠ none then (.error (.stale id), area)
    else if restorePlanBytes < area.placeFor plan + planSize plan then (.error .planFull, area)
    else (.ok (area.placeFor plan), area.placed id plan) := by
  unfold placePlan
  rw [contains_eq_isSome_getElem?]
  cases hplan : area.plans[id]? with
  | none => rfl
  | some span => rfl

theorem Area.Publishable.run_publishLocal (hpublishable : area.Publishable id plan) (more : Bool) :
    (publishLocal id plan more).run area = (some (.ok true), area.published id plan more) := by
  have hwords := length_le_words plan.length
  have hstate := hpublishable.preparing
  have hfits := hpublishable.fits
  have hplan : ¬ (plan = [] ∨ restorePlanBytes < plan.length) := by
    rintro (hnil | hlong)
    · exact hpublishable.nonempty hnil
    · unfold planSize at hfits
      omega
  unfold publishLocal
  rw [run_state hstate, if_neg (by decide), run_state hstate, if_neg (by decide), if_neg hplan,
    run_placePlan, placePlan_eq, if_neg (by simpa using hpublishable.absent),
    if_neg (by omega)]
  dsimp only
  rw [run_offset hstate.pos hstate.le, run_storeField, run_storeField, run_storeField]
  apply run_tryTransition
  exact ⟨hstate.pos, hstate.le, hstate.tag⟩

theorem run_publishLocal_full (hstate : area.InState id .preparing)
    (habsent : area.plans[id]? = none)
    (hfull : restorePlanBytes < area.placeFor plan + planSize plan) (more : Bool) :
    (publishLocal id plan more).run area = (some (.error .planFull), area) := by
  unfold publishLocal
  rw [run_state hstate, if_neg (by decide), run_state hstate, if_neg (by decide)]
  split
  · rfl
  · rw [run_placePlan, placePlan_eq, if_neg (by simpa using habsent), if_pos hfull, run_fail]

theorem run_publishLocal_of_not (hnot : ¬ area.Publishable id plan) (more : Bool) :
    ((publishLocal id plan more).run area).1 ≠ some (.ok true) ∧
      ((publishLocal id plan more).run area).2 = area := by
  unfold publishLocal
  rcases run_state_cases area id _ with ⟨error, hrun⟩ | ⟨source, hstate, hrun⟩
  · rw [hrun]
    exact ⟨by simp, rfl⟩
  rw [hrun]
  split
  · exact ⟨by simp, rfl⟩
  rw [run_state hstate]
  split
  · exact ⟨by simp, rfl⟩
  case isFalse hsource =>
  obtain rfl := not_not.mp hsource
  split
  · exact ⟨by simp, rfl⟩
  case isFalse hplan =>
  rw [run_placePlan, placePlan_eq]
  by_cases habsent : area.plans[id]? = none
  · by_cases hfits : area.placeFor plan + planSize plan ≤ restorePlanBytes
    · exact absurd ⟨hstate, fun hnil => hplan (.inl hnil), habsent, hfits⟩ hnot
    · rw [if_neg (not_not.mpr habsent), if_pos (by omega)]
      exact ⟨by simp, rfl⟩
  · rw [if_pos habsent]
    exact ⟨by simp, rfl⟩

theorem Area.Holds.published (hranges : PlanRanges area.plans) {other : Nat} {kept : List UInt8}
    (hholds : area.Holds other kept) (hslot : slotOf other ≠ slotOf id) :
    (area.published id plan more).Holds other kept := by
  have hne : id ≠ other := fun heq => hslot (congrArg slotOf heq.symm)
  have hfields : ∀ field, (area.published id plan more).fields (slotOf other) field =
      area.fields (slotOf other) field := by
    intro field
    simp only [Area.published, Area.exchanged, Area.storeField, update_of_ne hslot, Area.placed]
  obtain ⟨haligned, hfree⟩ := hranges.freePlace (planSize plan)
  have hapart := hfree other _ hholds.range
  have hstart := (hranges.aligned other _ hholds.range).1
  refine ⟨hholds.nonempty, ?_, ?_, ?_⟩
  · rw [hfields, ← hholds.range]
    exact getElem?_insert_of_ne hne
  · rw [hfields, hholds.length]
  · rw [hfields]
    refine Eq.trans (loadBytes_congr fun index hindex => ?_) hholds.bytes
    apply storeBytes_outside
    unfold Area.placeFor
    simp only [Span.Apart, planSize] at hapart hstart haligned ⊢
    omega

theorem Area.Publishable.holds (hpublishable : area.Publishable id plan) :
    (area.published id plan more).Holds id plan := by
  have hoffset : (area.published id plan more).fields (slotOf id) .planOffset =
      area.placeFor plan := by
    simp [published, exchanged, storeField]
  refine ⟨hpublishable.nonempty, ?_, ?_, ?_⟩
  · rw [hoffset]
    exact getElem?_insert_self
  · simp [published, exchanged, storeField]
  · rw [hoffset]
    exact loadBytes_storeBytes _ _ _

theorem Area.Publishable.ranges (hranges : PlanRanges area.plans)
    (hpublishable : area.Publishable id plan) : PlanRanges (area.published id plan more).plans := by
  obtain ⟨haligned, hfree⟩ := hranges.freePlace (planSize plan)
  have hfits := hpublishable.fits
  have hpos : 0 < plan.length := List.length_pos_of_ne_nil hpublishable.nonempty
  have hwords := length_le_words plan.length
  apply hranges.insert
  · exact hfree
  · simp only [placeFor, planSize] at haligned ⊢
    omega
  · simp only [placeFor, planSize] at hfits ⊢
    omega

theorem RestoreHistory.Banked.published {s : RestoreHistory} (hbanked : s.Banked)
    (hpublishable : s.area.Publishable id plan) (more : Bool) :
    RestoreHistory.Banked ⟨s.area.published id plan more,
      s.replies ++ [(.publishLocal id plan more, some (.ok (.flag true)))]⟩ where
  ranges := hpublishable.ranges hbanked.ranges
  granted other state hgranted htag := by
    by_cases hslot : slotOf other = slotOf id
    · have hother : other = id := by
        simp only [Area.published, Area.exchanged, hslot, update_self] at htag
        exact (tagOf_inj.mp htag).1.symm
      subst hother
      refine ⟨plan, ?_, hpublishable.holds⟩
      rw [lastGranted_append, grantedPlan, if_pos rfl, Option.some_or]
    · simp only [Area.published, Area.exchanged, update_of_ne hslot] at htag
      obtain ⟨kept, hlast, hholds⟩ := hbanked.granted other state hgranted htag
      refine ⟨kept, ?_, hholds.published hbanked.ranges hslot⟩
      have hne : id ≠ other := fun heq => hslot (congrArg slotOf heq.symm)
      rw [lastGranted_append, grantedPlan, if_neg hne, Option.none_or, hlast]

end Publish

/-! ### Whole histories -/

theorem RestoreHistory.Banked.step {s t : RestoreHistory} {call : RestoreCall} (hbanked : s.Banked)
    (hnext : s.next call = some t) : t.Banked := by
  cases hnext
  cases call with
  | publishLocal id plan more =>
    by_cases hpublishable : s.area.Publishable id plan
    · have hrun : (RestoreCall.publishLocal id plan more).body.run s.area =
          (some (.ok (.flag true)), s.area.published id plan more) :=
        run_bind_ok (hpublishable.run_publishLocal more)
      rw [hrun]
      exact hbanked.published hpublishable more
    · obtain ⟨hnot, hsame⟩ := run_publishLocal_of_not hpublishable more
      rw [RestoreCall.body, run_map]
      refine hbanked.quiet (by rw [hsame]; exact Quiet.refl s.area) fun other => ?_
      -- what is returned is no grant
      cases houtcome : ((publishLocal id plan more).run s.area).1 with
      | none => rfl
      | some outcome =>
        cases outcome with
        | error error => rfl
        | ok flag =>
          cases flag
          · rfl
          · exact absurd houtcome hnot
  | releasePlan id =>
    rw [RestoreCall.body, run_map]
    exact hbanked.quiet (quiet_releasePlan id s.area) fun _ => rfl
  | reap id fault =>
    rw [RestoreCall.body, run_map]
    exact hbanked.quiet (quiet_reap id fault s.area) fun _ => rfl
  | _ =>
    refine hbanked.quiet (quiet_run ?_ s.area) fun _ => rfl
    exact (does_body _).mono fun _ hdoes => hdoes.peaceful rfl

theorem banked_of_reachable {s : RestoreHistory} (hreach : serialRestoreMachine.Reachable s) :
    s.Banked := by
  apply hreach.invariant
  · rintro _ rfl
    exact banked_new
  · exact fun _ _ _ hbanked hstep => hbanked.step hstep

/-! ### Claims -/

section Claims

variable {s : RestoreHistory} {id : Nat} {source target : GrantState} {plan : List UInt8}
  {area : Area}

theorem run_fail_after {α β : Type} (op : Op α) (error : CompletionError) (area : Area) (value : β) :
    ((op >>= fun _ => (.fail error : Op β)).run area).1 ≠ some (.ok value) := by
  rw [run_bind]
  obtain ⟨outcome, area'⟩ := op.run area
  cases outcome with
  | none => exact nofun
  | some outcome => cases outcome <;> exact nofun

theorem run_claimRest (hranges : PlanRanges area.plans) (hholds : area.Holds id plan)
    (hpos : 0 < id) (hle : id ≤ maxOperationId) (fault drainFault : Option String) :
    ((claimRest id none drainFault).run area).1 = some (.ok (some plan)) ∧
      ∀ bytes, ((claimRest id fault drainFault).run area).1 = some (.ok (some bytes)) →
        bytes = plan := by
  have haligned := (hranges.aligned id _ hholds.range).1
  have hinside := (hranges.inside id _ hholds.range).2
  have hpositive := List.length_pos_of_ne_nil hholds.nonempty
  have hwords := length_le_words plan.length
  have hvalid : ¬ (plan.length = 0 ∨ area.fields (slotOf id) .planOffset % 8 ≠ 0 ∨
      restorePlanBytes < plan.length ∨
      restorePlanBytes - plan.length < area.fields (slotOf id) .planOffset) := by
    dsimp only at haligned hinside
    omega
  have hread : ∀ fault : Option String, ∃ area', (readPlan id fault).run area =
      (some (.ok (fault.elim (.ok plan) fun message => .error (.io message))), area') := by
    intro fault
    unfold readPlan
    rw [run_offset hpos hle, run_loadField, run_loadField, hholds.length, if_neg hvalid, run_loadPlan,
      hholds.bytes, run_storeField, run_markDirty]
    cases fault <;> exact ⟨_, rfl⟩
  constructor
  · obtain ⟨area', hrun⟩ := hread none
    rw [claimRest, run_bind_ok hrun]
    rfl
  · intro bytes hclaimed
    obtain ⟨area', hrun⟩ := hread fault
    rw [claimRest, run_bind_ok hrun] at hclaimed
    cases fault with
    | none => exact (Option.some.inj (Except.ok.inj (Option.some.inj hclaimed))).symm
    | some message => exact absurd hclaimed (run_fail_after _ _ _ _)

theorem run_claimLocal_granted (hstate : area.InState id source)
    (hgranted : source.isGranted = true) (fault drainFault : Option String) :
    ∃ exchange : Exchange, (claimLocal id fault drainFault).run area =
      (claimRest id fault drainFault).run (area.exchanged exchange) := by
  unfold claimLocal
  rw [run_state hstate]
  cases source with
  | granted | grantedMore => exact ⟨_, run_transition hstate none _⟩
  | _ => cases hgranted

theorem granted_of_claimLocal {fault drainFault : Option String} {bytes : List UInt8}
    (hclaimed : ((claimLocal id fault drainFault).run area).1 = some (.ok (some bytes))) :
    ∃ source, area.InState id source ∧ source.isGranted = true := by
  unfold claimLocal at hclaimed
  rcases run_state_cases area id _ with ⟨error, hrun⟩ | ⟨source, hstate, hrun⟩
  · rw [hrun] at hclaimed
    cases hclaimed
  rw [hrun] at hclaimed
  cases source with
  | granted | grantedMore => exact ⟨_, hstate, rfl⟩
  | _ => cases hclaimed

theorem RestoreHistory.Banked.claims (hbanked : s.Banked) (hstate : s.area.InState id source)
    (hgranted : source.isGranted = true) (fault drainFault : Option String) :
    ∃ plan, lastGranted s.replies id = some plan ∧
      ((claimLocal id none drainFault).run s.area).1 = some (.ok (some plan)) ∧
      ∀ bytes, ((claimLocal id fault drainFault).run s.area).1 = some (.ok (some bytes)) →
        bytes = plan := by
  obtain ⟨plan, hlast, hholds⟩ := hbanked.granted id source hgranted hstate.tag
  have hread : ∀ (exchange : Exchange) (fault : Option String),
      ((claimRest id none drainFault).run (s.area.exchanged exchange)).1 = some (.ok (some plan)) ∧
        ∀ bytes, ((claimRest id fault drainFault).run (s.area.exchanged exchange)).1 =
          some (.ok (some bytes)) → bytes = plan := by
    intro exchange fault
    apply run_claimRest
    · exact hbanked.ranges
    · exact ⟨hholds.nonempty, hholds.range, hholds.length, hholds.bytes⟩
    · exact hstate.pos
    · exact hstate.le
  refine ⟨plan, hlast, ?_, ?_⟩
  · obtain ⟨exchange, hrun⟩ := run_claimLocal_granted hstate hgranted none drainFault
    rw [hrun]
    exact (hread exchange none).1
  · obtain ⟨exchange, hrun⟩ := run_claimLocal_granted hstate hgranted fault drainFault
    rw [hrun]
    exact (hread exchange fault).2

def Area.NoGap (area : Area) (plan : List UInt8) : Prop :=
  ∀ place, place + planSize plan ≤ restorePlanBytes → ∃ (id : Nat) (span : Span),
    area.plans[id]? = some span ∧ ¬ Span.Apart ⟨place, place + planSize plan⟩ span

theorem Area.NoGap.full (hnone : area.NoGap plan) (hranges : PlanRanges area.plans) :
    restorePlanBytes < area.placeFor plan + planSize plan := by
  by_contra hfits
  obtain ⟨id, span, hspan, hoverlap⟩ := hnone (area.placeFor plan) (by omega)
  exact hoverlap ((hranges.freePlace _).2 id span hspan)

structure RestoreHistory.BankSafe (s : RestoreHistory) : Prop where
  /-- The live ranges are disjoint, aligned and inside the bank. -/
  ranges : PlanRanges s.area.plans
  /-- A plan that fits no gap is not published. -/
  full : ∀ id plan more, s.area.NoGap plan →
    ((publishLocal id plan more).run s.area).1 ≠ some (.ok true)
  /-- That is the error, if the operation waits for a plan. -/
  planFull : ∀ id plan more, s.area.NoGap plan → s.area.InState id .preparing →
    s.area.plans[id]? = none → ((publishLocal id plan more).run s.area).1 = some (.error .planFull)
  /-- A publication that grants nothing changes nothing. -/
  unchanged : ∀ id plan more, ((publishLocal id plan more).run s.area).1 ≠ some (.ok true) →
    ((publishLocal id plan more).run s.area).2 = s.area
  /-- A claim returns the plan that was granted last. -/
  claimed : ∀ id fault drainFault bytes,
    ((claimLocal id fault drainFault).run s.area).1 = some (.ok (some bytes)) →
    lastGranted s.replies id = some bytes
  /-- A granted plan can be claimed. -/
  claims : ∀ id source drainFault, source.isGranted = true → s.area.InState id source →
    ∃ bytes, ((claimLocal id none drainFault).run s.area).1 = some (.ok (some bytes))

/-- **The bank of plans.** After any sequence of calls the live ranges are disjoint, aligned and
inside the bank; a plan that fits no gap is not published and nothing changes; and a claim returns
the bytes of the last publication that granted the operation. -/
theorem plan_bank_safe (hreach : serialRestoreMachine.Reachable s) : s.BankSafe := by
  have hbanked := banked_of_reachable hreach
  refine ⟨hbanked.ranges, ?_, ?_, ?_, ?_, ?_⟩
  · intro id plan more hnone
    have hfull := hnone.full hbanked.ranges
    exact (run_publishLocal_of_not (fun hpublishable => absurd hpublishable.fits (by omega)) more).1
  · intro id plan more hnone hstate habsent
    rw [run_publishLocal_full hstate habsent (hnone.full hbanked.ranges)]
  · intro id plan more hnot
    by_cases hpublishable : s.area.Publishable id plan
    · exact absurd (congrArg Prod.fst (hpublishable.run_publishLocal more)) hnot
    · exact (run_publishLocal_of_not hpublishable more).2
  · intro id fault drainFault bytes hclaimed
    obtain ⟨source, hstate, hgranted⟩ := granted_of_claimLocal hclaimed
    obtain ⟨plan, hlast, -, hbytes⟩ := hbanked.claims hstate hgranted fault drainFault
    rw [hlast, hbytes bytes hclaimed]
  · intro id source drainFault hgranted hstate
    obtain ⟨plan, -, hclaim, -⟩ := hbanked.claims hstate hgranted none drainFault
    exact ⟨plan, hclaim⟩

/-- Two operations with plans of several words: the first is claimed, drained and given a second
part while the second still holds its range. -/
def bankCalls : List RestoreCall :=
  [.reserve, .reserve, .claim 1, .claim 2, .publishLocal 1 [1, 2, 3] true,
    .publishLocal 2 [4, 5, 6, 7, 8, 9, 10, 11, 12] false, .claimLocal 1 none none, .releasePlan 1,
    .drained 1 (.ok ()) none none, .continueLocal 1,
    .publishLocal 1 [13, 14, 15, 16, 17, 18, 19, 20, 21] false]

theorem plan_bank_safe_parts :
    ∃ s : RestoreHistory, serialRestoreMachine.Reachable s ∧
      s.area.plans[1]? = some ⟨24, 40⟩ ∧ s.area.plans[2]? = some ⟨8, 24⟩ ∧
      ((claimLocal 1 none none).run s.area).1 =
        some (.ok (some [13, 14, 15, 16, 17, 18, 19, 20, 21])) ∧ s.BankSafe := by
  have hrun : (bankCalls.foldlM RestoreHistory.next ⟨new, []⟩).any (fun s =>
      s.area.plans[1]? = some ⟨24, 40⟩ ∧ s.area.plans[2]? = some ⟨8, 24⟩ ∧
      ((claimLocal 1 none none).run s.area).1 =
        some (.ok (some [13, 14, 15, 16, 17, 18, 19, 20, 21]))) = true := by
    decide +kernel
  obtain ⟨s, hreach, hfirst, hsecond, hclaim⟩ := serialRestoreMachine.exists_reachable rfl rfl hrun
  exact ⟨s, hreach, hfirst, hsecond, hclaim, plan_bank_safe hreach⟩

end Claims

end OrbitKV
