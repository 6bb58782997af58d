import OrbitKV.Channel.RestoreSession
import OrbitKV.Proof.RestoreLedger
import OrbitKV.Proof.RestoreText

/-!
# Restore calls and their results

A result is written by the one that may, and made final with the words unchanged.
-/

namespace OrbitKV

open Std Discipline.Keeps
open Discipline (stable_true)

open RestoreCompletions

theorem forall_mem_none {α : Type} {P : α → Prop} : ∀ a ∈ (none : Option α), P a := by
  intro a ha
  cases ha

/-! ### Facts that interference does not destroy -/

def Area.Writable (area : Area) (id : Nat) (cap : Nat → RestoreCap) : Prop :=
  ∃ state : GrantState, area.tags (slotOf id) = tagOf id state ∧ state.writer = some cap

def Area.Past (area : Area) (id : Nat) : Prop :=
  area.tags (slotOf id) = tagOf id .acknowledged ∨ id < area.tags (slotOf id) / 16

def Area.Shown (area : Area) (id : Nat) (result : RestoreResult) (right : Prop) : Prop :=
  finishes area.log id = [result] ∧
    (area.Past id ∨ area.tags (slotOf id) = tagOf id .reaped ∧ area.Encodes (slotOf id) result ∧
      right)

section Stability

variable {held others : Set RestoreCap} {area area' : Area} {id : Nat} {cap : Nat → RestoreCap}
  {result : RestoreResult} {right : Prop}

theorem took_of_interferes (hstep : resultDiscipline.Interferes held area area') :
    ∃ others others', Disjoint held others ∧ area.Accounted ∧ Took others area area' others' := by
  obtain ⟨others, access, hdisjoint, hvalid, hsanctioned, rfl⟩ := hstep
  exact ⟨others, _, hdisjoint, hvalid, Sanctioned.took hsanctioned⟩

theorem GrantState.requires_writer {source : GrantState} (hwriter : source.writer = some cap)
    (target : GrantState) : source.requires target = some cap ∨ target.writer = some cap := by
  cases source <;> cases hwriter <;> cases target <;> first | exact .inl rfl | exact .inr rfl

theorem stable_writable (hcap : cap id ∈ held) (result : Option RestoreResult) :
    resultDiscipline.Stable held fun area =>
      area.Writable id cap ∧ ∀ written ∈ result, area.Encodes (slotOf id) written := by
  rintro area area' hstep ⟨⟨state, htag, hwriter⟩, hencodes⟩
  obtain ⟨others, others', hdisjoint, hvalid, htook⟩ := took_of_interferes hstep
  have hother : cap id ∉ others := Set.disjoint_left.mp hdisjoint hcap
  cases htook with
  | same hsame =>
    exact ⟨⟨state, hsame.tags.symm ▸ htag, hwriter⟩, fun w hw => hsame.encodes (hencodes w hw)⟩
  | @move other source target note hpos hmoves hheld hnote hwritten hold =>
    refine ⟨?_, fun w hw => (hencodes w hw).exchanged _⟩
    by_cases hslot : slotOf id = slotOf other
    · rw [hslot, hold] at htag
      obtain ⟨rfl, rfl⟩ := tagOf_inj.mp htag
      rcases GrantState.requires_writer hwriter target with hrequires | htarget
      · exact absurd (hheld cap hrequires) hother
      · exact ⟨target, by simp [Area.exchanged], htarget⟩
    · refine ⟨state, ?_, hwriter⟩
      simpa only [Area.exchanged, Function.update_of_ne hslot] using htag
  | @reserve other tag hfree hless hold =>
    refine ⟨⟨state, Area.tags_reserve hold hfree htag ?_, hwriter⟩,
      fun w hw => (hencodes w hw).exchanged _⟩
    constructor <;> rintro rfl <;> cases hwriter
  | @write other state' cap' _ hpos htag' hwriter' hheld =>
    have hslot : slotOf id ≠ slotOf other := by
      intro hslot
      rw [← hslot, htag] at htag'
      obtain ⟨rfl, rfl⟩ := tagOf_inj.mp htag'
      rw [hwriter] at hwriter'
      exact hother (Option.some.inj hwriter' ▸ hheld)
    exact ⟨⟨state, htag, hwriter⟩, fun w hw => (hencodes w hw).writeResult hslot⟩

theorem Took.past {others' : Set RestoreCap} (htook : Took others area area' others')
    (hpast : area.Past id) : area'.Past id := by
  unfold Area.Past at hpast ⊢
  cases htook with
  | same hsame =>
    rw [hsame.tags]
    exact hpast
  | @move other source target note hpos hmoves hheld hnote hwritten hold =>
    by_cases hslot : slotOf id = slotOf other
    · rw [hslot, hold, tagOf_div] at hpast
      simp only [Area.exchanged, hslot, Function.update_self, tagOf_div]
      rcases hpast with htag | hlater
      · obtain ⟨rfl, rfl⟩ := tagOf_inj.mp htag
        rw [GrantState.not_moves_from_acknowledged] at hmoves
        cases hmoves
      · exact .inr hlater
    · simpa only [Area.exchanged, Function.update_of_ne hslot] using hpast
  | @reserve other tag hfree hless hold =>
    by_cases hslot : slotOf id = slotOf other
    · rw [hslot, hold] at hpast
      simp only [Area.exchanged, hslot, Function.update_self, tagOf_div]
      refine .inr ?_
      rcases hpast with htag | hlater
      · rwa [htag, tagOf_div] at hless
      · omega
    · simpa only [Area.exchanged, Function.update_of_ne hslot] using hpast
  | write => exact hpast

theorem singleton_append_eq {α : Type} {a : α} {rest : List α}
    (hlength : ([a] ++ rest).length ≤ 1) : [a] ++ rest = [a] := by
  cases rest with
  | nil => rfl
  | cons b rest => simp at hlength

theorem Took.finishes {others' : Set RestoreCap} (htook : Took others area area' others')
    (hvalid : area.Accounted) (hfinishes : finishes area.log id = [result]) :
    OrbitKV.finishes area'.log id = [result] := by
  have hvalid' := htook.accounted hvalid
  cases htook with
  | same hsame => rw [hsame.log, hfinishes]
  | move | reserve =>
    have hsingle := hvalid'.single id
    rw [Area.exchanged, Area.finishes_append, hfinishes] at hsingle ⊢
    exact singleton_append_eq hsingle
  | write => exact hfinishes

theorem stable_shown : resultDiscipline.Stable held fun area => area.Shown id result right := by
  rintro area area' hstep ⟨hfinishes, hshown⟩
  obtain ⟨others, others', hdisjoint, hvalid, htook⟩ := took_of_interferes hstep
  refine ⟨htook.finishes hvalid hfinishes, ?_⟩
  rcases hshown with hpast | ⟨htag, hencodes, hright⟩
  · exact .inl (htook.past hpast)
  cases htook with
  | same hsame => exact .inr ⟨hsame.tags.symm ▸ htag, hsame.encodes hencodes, hright⟩
  | @move other source target note hpos hmoves hheld hnote hwritten hold =>
    by_cases hslot : slotOf id = slotOf other
    · rw [hslot, hold] at htag
      obtain ⟨rfl, rfl⟩ := tagOf_inj.mp htag
      refine .inl (.inl ?_)
      obtain rfl : target = .acknowledged := by
        cases target <;> first | rfl | cases hmoves
      simp [Area.exchanged]
    · refine .inr ⟨?_, hencodes.exchanged _, hright⟩
      simpa only [Area.exchanged, Function.update_of_ne hslot] using htag
  | @reserve other tag hfree hless hold =>
    exact .inr ⟨Area.tags_reserve hold hfree htag (by simp), hencodes.exchanged _, hright⟩
  | @write other state cap written hpos htag' hwriter hheld =>
    have hslot : slotOf id ≠ slotOf other := by
      intro hslot
      rw [← hslot, htag] at htag'
      obtain ⟨-, rfl⟩ := tagOf_inj.mp htag'
      cases hwriter
    exact .inr ⟨htag, hencodes.writeResult hslot, hright⟩

end Stability

/-! ### Rules for the calls -/

section Rules

variable {α : Type} {Q : Set RestoreCap → Except CompletionError α → Area → Prop}
  {I : Set RestoreCap → Area → Prop} {held : Set RestoreCap} {area : Area} {id : Nat}
  {source target : GrantState} {P : Area → Prop}

theorem offset_bind (hpos : 0 < id) (hle : id ≤ maxOperationId) (rest : Slot → Op α) :
    (offset id >>= rest) = rest (slotOf id) := by
  unfold offset
  rw [if_neg (by omega), Process.done_bind]

theorem keeps_plain {process : Op α} (hall : process.All Access.Plain)
    (hQ : ∀ outcome t, Q held outcome t) (hI : ∀ t, I held t) :
    resultDiscipline.Keeps Q I process held area :=
  of_static hall (fun _ _ _ => .plain) (fun _ answer hplain =>
    capsAfter_plain hplain answer) hQ hI

theorem keeps_state {rest : GrantState → Op α} (hP : resultDiscipline.Stable held P) (hs : P area)
    (hrest : ∀ t state, resultDiscipline.Fits held t → P t → t.InState id state →
      resultDiscipline.Keeps Q I (rest state) held t)
    (herror : ∀ error t, Q held (.error error) t) :
    resultDiscipline.Keeps Q I (state id >>= rest) held area := by
  rw [state_eq]
  unfold offset
  split
  case isTrue => exact fun t _ => herror _ t
  case isFalse hvalid =>
    refine act hP hs fun t hfits ht => ⟨.plain trivial, ?_⟩
    change resultDiscipline.Keeps Q I (stateOf id (t.tags (slotOf id)) >>= rest) held t
    unfold stateOf
    by_cases hid : t.tags (slotOf id) / 16 = id
    · rw [if_neg (not_not.mpr hid)]
      cases hdecode : GrantState.decode (t.tags (slotOf id)) with
      | none => exact fun u _ => herror _ u
      | some state =>
        refine hrest t state hfits ht ⟨by omega, by omega, ?_⟩
        have hcode := decode_eq_some hdecode
        unfold tagOf
        omega
    · rw [if_pos hid]
      exact fun u _ => herror _ u

theorem keeps_exchanging {note : Option RestoreResult} {rest : Bool → Op α}
    (hP : resultDiscipline.Stable held P) (hs : P area)
    (hsanctioned : ∀ t, P t → 0 < id →
      Sanctioned held t (.exchange (slotOf id) (tagOf id source) (tagOf id target) note))
    (hsuccess : ∀ t, P t → t.tags (slotOf id) = tagOf id source →
      resultDiscipline.Fits (source.passes target id held)
        (t.exchanged ⟨slotOf id, tagOf id source, tagOf id target, note⟩) →
      resultDiscipline.Keeps Q I (rest true) (source.passes target id held)
        (t.exchanged ⟨slotOf id, tagOf id source, tagOf id target, note⟩))
    (hfailure : ∀ t, resultDiscipline.Fits held t → P t →
      resultDiscipline.Keeps Q I (rest false) held t)
    (herror : ∀ error t, Q held (.error error) t) :
    resultDiscipline.Keeps Q I (tryTransition id source target note >>= rest) held area := by
  unfold tryTransition offset
  split
  case isTrue => exact fun t _ => herror _ t
  case isFalse hvalid =>
    refine act hP hs fun t hfits ht => ?_
    have hpermitted := hsanctioned t ht (by omega)
    refine ⟨hpermitted, ?_⟩
    have hafter := Discipline.Fits.act hfits hpermitted
    rcases t.exchange_cases (slotOf id) (tagOf id source) (tagOf id target) note with
      ⟨hold, hresult⟩ | ⟨-, hresult⟩
    · simp only [Access.perform, hresult] at hafter ⊢
      change resultDiscipline.Fits (capsAfter held
        (.exchange (slotOf id) (tagOf id source) (tagOf id target) note) true) _ at hafter
      change resultDiscipline.Keeps Q I (rest true) (capsAfter held
        (.exchange (slotOf id) (tagOf id source) (tagOf id target) note) true) _
      rw [capsAfter_move] at hafter ⊢
      exact hsuccess t ht hold hafter
    · simp only [Access.perform, hresult]
      exact hfailure t hfits ht

end Rules

/-! ### Calls that return no result -/

def RestoreCall.isStatic : RestoreCall → Bool
  | .claimLocal .. | .drained .. | .poll _ | .reap .. | .reject .. | .complete .. => false
  | _ => true

abbrev Obeys {α : Type} (I : Set RestoreCap → Area → Prop) (process : Op α) (held : Set RestoreCap)
    (area : Area) : Prop :=
  resultDiscipline.Keeps (fun _ _ _ => True) I process held area

section Calls

variable {held : Set RestoreCap} {area : Area} {id : Nat} {I : Set RestoreCap → Area → Prop}

variable {source target : GrantState} {cap : Nat → RestoreCap} {result : RestoreResult}

theorem static_moves {call : RestoreCall}
    (hstatic : call.isStatic = true) (hmoves : call.moves source target = true) :
    (source.isOpen && target.isFinal) = false ∧ (∀ id held, source.passes target id held = held) ∧
      ∀ cap ∈ source.requires target, cap = .manage ∧ call.managed? = call.id? := by
  unfold RestoreCall.moves at hmoves
  split at hmoves <;> first | cases hstatic | cases hmoves
  all_goals
    refine ⟨rfl, fun _ _ => rfl, fun cap hcap => ?_⟩
    first | exact ⟨(Option.some.inj hcap).symm, rfl⟩ | cases hcap

theorem not_offers {call : RestoreCall} (hstatic : call.isStatic = true) (result : RestoreResult) :
    ¬call.offers result := by
  cases call <;> first | exact id | cases hstatic

theorem keeps_static {call : RestoreCall} (hstatic : call.isStatic = true)
    (hheld : ∀ id, call.managed? = some id → .manage id ∈ held) (hI : ∀ t, I held t) :
    Obeys I call.body held area := by
  refine of_static (does_body call) ?_ ?_ (fun _ _ => trivial) hI
  · intro access t _ hdoes
    cases hdoes with
    | calm hcalm => exact .plain hcalm.plain
    | plan _ hplan => exact .plain hplan.plain
    | reserve _ hfree hless => exact .reserve hfree hless
    | write hoffers => exact absurd hoffers (not_offers hstatic _)
    | @move id source target note hpos hid hmoves hnote =>
      obtain ⟨hopen, -, hrequires⟩ := static_moves hstatic hmoves
      obtain rfl : note = none := by
        cases note with
        | none => rfl
        | some result => exact absurd (hnote result rfl) (not_offers hstatic result)
      refine .move hpos (RestoreCall.moves_diagram hmoves) (fun cap hcap => ?_) hopen.symm
        forall_mem_none
      obtain ⟨rfl, hmanaged⟩ := hrequires cap hcap
      exact hheld id (hmanaged.trans hid)
  · intro access answer hdoes
    cases hdoes with
    | calm hcalm => exact capsAfter_plain hcalm.plain answer
    | plan _ hplan => exact capsAfter_plain hplan.plain answer
    | write => rfl
    | @reserve id tag _ hfree _ =>
      cases answer
      · rfl
      · exact capsAfter_reserve (slotOf id) none hfree
    | @move id source target note _ _ hmoves _ =>
      cases answer
      · rfl
      · exact (capsAfter_move (slotOf id) note).trans ((static_moves hstatic hmoves).2.1 id held)

/-! ### Calls that write results -/

theorem keeps_map_true {α β : Type} {f : α → β} {process : Op α}
    (hs : resultDiscipline.Fits held area) (hkeeps : Obeys I process held area) :
    Obeys I (f <$> process) held area :=
  map hs hkeeps fun _ _ _ _ _ _ => trivial

def Area.Written (area : Area) (id : Nat) (cap : Nat → RestoreCap) (result : RestoreResult) : Prop :=
  area.Writable id cap ∧ ∀ written ∈ some result, area.Encodes (slotOf id) written

theorem keeps_write {α : Type}
    {rest : Unit → Op α} (hcap : cap id ∈ held) (hpos : 0 < id) (hwritable : area.Writable id cap)
    (hrest : ∀ t, resultDiscipline.Fits held t → t.Written id cap result →
      Obeys I (rest ()) held t) :
    Obeys I (Op.writeResult (slotOf id) result >>= rest) held area := by
  refine act (stable_writable hcap none) ⟨hwritable, forall_mem_none⟩ ?_
  rintro t hfits ⟨⟨state, htag, hwriter⟩, -⟩
  have hsanctioned : Sanctioned held t (.writeResult (slotOf id) result) :=
    .write hpos htag hwriter hcap
  refine ⟨hsanctioned, hrest _ (hfits.act hsanctioned) ⟨⟨state, htag, hwriter⟩, ?_⟩⟩
  rintro _ ⟨⟩
  exact t.encodes_writeResult (slotOf id) result

theorem keeps_finish {α : Type} {note : Option RestoreResult} {rest : Bool → Op α}
    (hcap : cap id ∈ held) (hwritten : area.Written id cap result)
    (hmoves : source.moves target = true) (hrequires : source.requires target = some cap)
    (hnote : note = if source.isOpen && target.isFinal then some result else none)
    (hsuccess : ∀ t, Obeys I (rest true) (source.passes target id held) t)
    (hfailure : ∀ t, resultDiscipline.Fits held t → Obeys I (rest false) held t) :
    Obeys I (tryTransition id source target note >>= rest) held area := by
  refine keeps_exchanging (stable_writable hcap (some result)) hwritten ?_
    (fun u _ _ _ => hsuccess _) (fun u hfits _ => hfailure u hfits) fun _ _ => trivial
  rintro t ⟨-, hencodes⟩ hpos
  rw [hnote]
  refine .move hpos hmoves (fun other hother => ?_) ?_ fun final hfinal => ?_
  · rw [hrequires] at hother
    exact Option.some.inj hother ▸ hcap
  · cases source.isOpen && target.isFinal <;> rfl
  · cases hopen : source.isOpen && target.isFinal with
    | true =>
      rw [hopen] at hfinal
      exact hencodes final hfinal
    | false =>
      rw [hopen] at hfinal
      cases hfinal

theorem plain_dirty (id : Nat) (fault : Option String) : (dirty id fault).All Access.Plain :=
  all_dirty (fun _ => Access.Calm.plain) id fault

theorem Area.Writable.writer {state : GrantState}
    (hwritable : area.Writable id cap) (hstate : area.InState id state) :
    state.writer = some cap := by
  obtain ⟨state', htag, hwriter⟩ := hwritable
  obtain ⟨-, rfl⟩ := tagOf_inj.mp (hstate.tag.symm.trans htag)
  exact hwriter

theorem Area.InState.writable {state : GrantState}
    (hstate : area.InState id state) (hwriter : state.writer = some cap) : area.Writable id cap :=
  ⟨state, hstate.tag, hwriter⟩

theorem GrantState.eq_active_of_writer {state : GrantState} (hwriter : state.writer = some .active) :
    state = .active ∨ state = .activeMore := by
  cases state with
  | active => exact .inl rfl
  | activeMore => exact .inr rfl
  | preparing | cancelRequested | managed | revoked =>
    cases congrFun (Option.some.inj hwriter) 0
  | _ => cases hwriter

theorem keeps_drained (hs : resultDiscipline.Fits held area) (hcap : .active id ∈ held)
    (hI : ∀ held t, I held t) (result : RestoreResult) (timing : Option RestoreTiming)
    (fault : Option String) : Obeys I (drained id result timing fault) held area := by
  have hwritable : area.Writable id .active := by
    obtain ⟨state, hstate, htag⟩ := hs.2 _ hcap
    refine ⟨state, htag, ?_⟩
    rcases hstate with rfl | rfl <;> rfl
  refine keeps_state (stable_writable hcap none) ⟨hwritable, forall_mem_none⟩ ?_ fun _ _ => trivial
  rintro t source hfits ⟨hwritable, -⟩ hstate
  have hsource := GrantState.eq_active_of_writer (hwritable.writer hstate)
  rw [if_neg (fun hneither => hsource.elim hneither.1 hneither.2), offset_bind hstate.pos hstate.le]
  refine act (stable_writable hcap none) ⟨hwritable, forall_mem_none⟩ ?_
  rintro t hfits ⟨hwritable, -⟩
  refine ⟨.plain trivial, keeps_write hcap hstate.pos hwritable fun t hfits hwritten => ?_⟩
  rw [transition, Process.bind_assoc]
  refine keeps_finish hcap hwritten ?_ ?_ ?_ (fun t => ?_) fun t _ => ?_
  · rcases hsource with rfl | rfl
    · rw [if_pos (.inl rfl)]
      rfl
    · split <;> rfl
  · rcases hsource with rfl | rfl
    · rw [if_pos (.inl rfl)]
      rfl
    · split <;> rfl
  · by_cases hfinal : source = .active ∨ result.failed = 1
    · rw [if_pos hfinal, if_pos hfinal]
      rcases hsource with rfl | rfl <;> rfl
    · rw [if_neg hfinal, if_neg hfinal]
      rcases hsource with rfl | rfl <;> rfl
  · exact keeps_plain ((plain_dirty id fault).bind fun _ => trivial) (fun _ _ => trivial) (hI _)
  · exact fun _ _ => trivial

theorem keeps_bind_plain {α β : Type} {first : Op α} {rest : α → Op β}
    (hs : resultDiscipline.Fits held area) (hall : first.All Access.Plain)
    (hrest : ∀ value t, resultDiscipline.Fits held t →
      Obeys I (rest value) held t) (hI : ∀ t, I held t) : Obeys I (first >>= rest) held area :=
  bind_static hs hall (fun _ _ _ => .plain)
    (fun _ answer hplain => capsAfter_plain hplain answer) hrest (fun _ _ => trivial) hI

theorem keeps_claimRest (hs : resultDiscipline.Fits held area) (hcap : .active id ∈ held)
    (hI : ∀ held t, I held t) {α : Type} (fault drainFault : Option String)
    {rest : Option (List UInt8) → Op α}
    (hrest : ∀ t plan, resultDiscipline.Fits held t → Obeys I (rest (some plan)) held t) :
    Obeys I (claimRest id fault drainFault >>= rest) held area := by
  rw [claimRest, Process.bind_assoc]
  refine keeps_bind_plain hs (all_readPlan (fun _ => Access.Calm.plain) id fault) ?_ (hI held)
  intro plan t hfits
  cases plan with
  | ok plan => exact hrest t plan hfits
  | error error =>
    rw [Process.bind_assoc]
    refine bind hfits ((keeps_drained hfits hcap hI _ none drainFault).mono ?_ ?_)
    · intro held outcome u _
      cases outcome with
      | ok value => exact fun _ _ => trivial
      | error error => trivial
    · exact fun held u _ => hI held u

theorem keeps_claimFrom {α : Type}
    (hI : ∀ held t, I held t) (hmoves : source.moves target = true)
    (hopen : (source.isOpen && target.isFinal) = false) (hrequires : source.requires target = none)
    (hpasses : source.passes target id held = insert (.active id) held)
    (fault drainFault : Option String) {rest : Option (List UInt8) → Op α}
    (hrest : ∀ held t plan, resultDiscipline.Fits held t → .active id ∈ held →
      Obeys I (rest (some plan)) held t) :
    Obeys I (claimFrom id source target fault drainFault >>= rest) held area := by
  rw [claimFrom_eq, Process.bind_assoc, transition, Process.bind_assoc]
  refine keeps_exchanging stable_true trivial ?_ ?_ (fun t _ _ _ _ => trivial) fun _ _ => trivial
  · intro t _ hpos
    refine .move hpos hmoves (fun cap hcap => ?_) hopen.symm forall_mem_none
    rw [hrequires] at hcap
    cases hcap
  · intro t _ _ hfits
    rw [hpasses] at hfits ⊢
    have hactive : .active id ∈ insert (.active id) held := Set.mem_insert _ _
    exact keeps_claimRest hfits hactive hI fault drainFault
      fun u plan hfits => hrest _ u plan hfits hactive

theorem keeps_execute (hs : resultDiscipline.Fits held area) (hI : ∀ held t, I held t)
    (fault drainFault : Option String) (result : RestoreResult) (timing : Option RestoreTiming)
    (doneFault : Option String) :
    Obeys I (SessionCall.execute id fault drainFault result timing doneFault).body held area := by
  rw [SessionCall.body]
  unfold claimLocal
  rw [Process.bind_assoc]
  refine keeps_bind_plain hs (all_state (fun _ => Access.Calm.plain) id) ?_ (hI held)
  intro source t hfits
  have hdrain : ∀ held t, resultDiscipline.Fits held t → .active id ∈ held →
      Obeys I (RestoreReply.flag <$> drained id result timing doneFault) held t :=
    fun held t hfits hcap => keeps_map_true hfits (keeps_drained hfits hcap hI _ _ _)
  cases source with
  | granted =>
    exact keeps_claimFrom hI rfl rfl rfl rfl fault drainFault fun held t _ => hdrain held t
  | grantedMore =>
    exact keeps_claimFrom hI rfl rfl rfl rfl fault drainFault fun held t _ => hdrain held t
  | _ => exact fun _ _ => trivial

theorem keeps_reject (hcap : .manage id ∈ held)
    (hI : ∀ t, I held t) (message : String) (fault : Option String) :
    Obeys I (reject id message fault) held area := by
  refine keeps_state stable_true trivial (fun t source hfits _ hstate => ?_) fun _ _ => trivial
  split
  case isFalse => exact fun _ _ => trivial
  case isTrue hsource =>
    rw [offset_bind hstate.pos hstate.le]
    have hwriter : source.writer = some .manage := by
      rcases hsource with rfl | rfl <;> rfl
    refine keeps_write hcap hstate.pos (hstate.writable hwriter) fun t hfits hwritten => ?_
    refine keeps_finish hcap hwritten ?_ ?_ ?_ (fun t => ?_) fun t _ => ?_
    · rcases hsource with rfl | rfl <;> rfl
    · rcases hsource with rfl | rfl <;> rfl
    · rcases hsource with rfl | rfl <;> rfl
    · have hpasses : source.passes .reaped id held = held := by
        rcases hsource with rfl | rfl <;> rfl
      rw [hpasses]
      exact keeps_plain (all_signal fault) (fun _ _ => trivial) hI
    · exact fun t _ => hI t

theorem keeps_complete (hcap : .manage id ∈ held) (result : RestoreResult) :
    Obeys I (complete id result) held area := by
  refine keeps_state stable_true trivial (fun t source hfits _ hstate => ?_) fun _ _ => trivial
  split
  case isTrue => exact fun _ _ => trivial
  case isFalse hsource =>
    obtain rfl := not_not.mp hsource
    rw [offset_bind hstate.pos hstate.le]
    refine keeps_write hcap hstate.pos (hstate.writable rfl) fun t hfits hwritten => ?_
    exact keeps_finish hcap hwritten rfl rfl rfl (fun t _ _ => trivial) fun t _ _ _ => trivial

theorem keeps_reap (hcap : .manage id ∈ held) (hI : ∀ t, I held t) (fault : Option String) :
    Obeys I (reap id fault) held area := by
  have hsignal : ∀ t, Obeys I (signal fault) held t :=
    fun t => keeps_plain (all_signal fault) (fun _ _ => trivial) hI
  refine keeps_state stable_true trivial (fun t source hfits _ hstate => ?_) fun _ _ => trivial
  cases source with
  | drained =>
    refine act stable_true trivial fun t hfits _ => ⟨.plain trivial, ?_⟩
    change resultDiscipline.Keeps _ I (transition id .drained .reaped none >>= fun _ => signal fault)
      held _
    rw [transition, Process.bind_assoc]
    refine keeps_exchanging stable_true trivial ?_ (fun t _ _ _ => hsignal _)
      (fun t _ _ _ _ => trivial) fun _ _ => trivial
    intro t _ hpos
    refine .move hpos rfl (fun cap hrequires => ?_) rfl forall_mem_none
    exact Option.some.inj hrequires ▸ hcap
  | revoked =>
    refine act (stable_writable hcap none) ⟨hstate.writable rfl, forall_mem_none⟩ ?_
    rintro t hfits ⟨hwritable, -⟩
    refine ⟨.plain trivial, ?_⟩
    change resultDiscipline.Keeps _ I (offset id >>= fun slot => _) held _
    rw [offset_bind hstate.pos hstate.le]
    refine keeps_write hcap hstate.pos hwritable fun t hfits hwritten => ?_
    rw [transition, Process.bind_assoc]
    exact keeps_finish hcap hwritten rfl rfl rfl (fun t => hsignal t) fun t _ _ _ => trivial
  | _ => exact fun _ _ => trivial

/-! ### The poll -/

structure Reports (id : Nat) (result : RestoreResult) (response : RestoreResponse) : Prop where
  operation : response.operationId = id
  state : response.state = if result.failed = 0 then .succeeded else .failed
  message : IsCut result.text restoreErrorBytes response.message

def PollPromise (id : Nat) (held : Set RestoreCap) (outcome : Except CompletionError RestoreResponse)
    (area : Area) : Prop :=
  ∀ response, outcome = .ok response → response.state ≠ .pending →
    .acked id ∈ held ∧ ∃ result, finishes area.log id = [result] ∧ Reports id result response

theorem reports_of_read (id : Nat) (result : RestoreResult) :
    (storedMessage result).length ≤ restoreErrorBytes ∧
      ∃ message, String.fromUTF8? ⟨(storedMessage result).toArray⟩ = some message ∧
        Reports id result ⟨id, if ((storedMessage result).length * 2 + result.failed) % 2 = 0
          then .succeeded else .failed, message⟩ := by
  obtain ⟨message, hcut, hstored⟩ := storedMessage_cut result
  rw [hstored, length_toByteArray]
  refine ⟨hcut.fits, message, fromUTF8_toByteArray message, rfl, ?_, hcut⟩
  cases result <;> simp [RestoreResult.failed]

theorem stable_finishes :
    resultDiscipline.Stable held fun area => finishes area.log id = [result] := by
  intro area area' hstep hfinishes
  obtain ⟨others, others', -, hvalid, htook⟩ := took_of_interferes hstep
  exact htook.finishes hvalid hfinishes

theorem promise_error (error : CompletionError) : PollPromise id held (.error error) area := by
  intro response hresponse
  cases hresponse

theorem Area.Shown.of_reaped {right : Prop}
    (hshown : area.Shown id result right) (htag : area.tags (slotOf id) = tagOf id .reaped) :
    right := by
  rcases hshown.2 with hpast | ⟨-, -, hright⟩
  · rcases hpast with hacknowledged | hlater
    · cases (tagOf_inj.mp (htag.symm.trans hacknowledged)).2
    · rw [htag, tagOf_div] at hlater
      exact absurd hlater (lt_irrefl _)
  · exact hright

theorem Area.Shown.read {right right' : Prop} (hshown : area.Shown id result right)
    (hread : right → area.Encodes (slotOf id) result → right') : area.Shown id result right' :=
  ⟨hshown.1, hshown.2.imp_right fun ⟨htag, hencodes, hright⟩ =>
    ⟨htag, hencodes, hread hright hencodes⟩⟩

def respond (id result : Nat) (bytes : List UInt8) : Op RestoreResponse :=
  match String.fromUTF8? ⟨bytes.toArray⟩ with
  | none => .fail .invalidPayload
  | some message => .done ⟨id, if result % 2 = 0 then .succeeded else .failed, message⟩

def pollResult (id : Nat) (slot : Slot) : Op RestoreResponse := do
  let result ← Op.loadField slot .result
  if restoreErrorBytes < result / 2 then
    .fail .invalidPayload
  else
    let bytes ← Op.loadText slot (result / 2)
    transition id .reaped .acknowledged none
    respond id result bytes

theorem poll_eq (id : Nat) : poll id = offset id >>= fun slot => state id >>= fun current =>
    if current = .acknowledged then .fail (.stale id)
    else if current ≠ .reaped then .done ⟨id, .pending, ""⟩
    else pollResult id slot :=
  rfl

theorem keeps_respond {final : RestoreResult} {result : Nat} {bytes : List UInt8}
    (hshown : area.Shown id final
      (result = (storedMessage final).length * 2 + final.failed ∧ bytes = storedMessage final)) :
    resultDiscipline.Keeps (PollPromise id) I
      (transition id .reaped .acknowledged none >>= fun _ => respond id result bytes) held area := by
  rw [transition, Process.bind_assoc]
  refine keeps_exchanging stable_shown hshown (fun t _ hpos => ?_) (fun t hshown htag hfits => ?_)
    (fun t _ _ => ?_) fun error _ => promise_error error
  · exact .move hpos rfl forall_mem_none rfl forall_mem_none
  · obtain ⟨rfl, rfl⟩ := hshown.of_reaped htag
    obtain ⟨-, message, hmessage, hreports⟩ := reports_of_read id final
    have hfinishes : finishes (t.exchanged
        ⟨slotOf id, tagOf id .reaped, tagOf id .acknowledged, none⟩).log id = [final] := by
      rw [Area.exchanged, Area.finishes_append, hshown.1]
      simp
    change resultDiscipline.Keeps (PollPromise id) I (respond id _ _) _ _
    unfold respond
    rw [hmessage]
    intro u hu response hresponse _
    cases hresponse
    exact ⟨Set.mem_insert _ _, final, hu.stable (stable_finishes _ _) hfinishes, hreports⟩
  · exact fun _ _ => promise_error _

theorem keeps_pollResult {final : RestoreResult} (hshown : area.Shown id final True) :
    resultDiscipline.Keeps (PollPromise id) I (pollResult id (slotOf id)) held area := by
  refine act stable_shown hshown fun t _ hshown => ⟨.plain trivial, ?_⟩
  have hread : t.Shown id final
      (t.fields (slotOf id) .result = (storedMessage final).length * 2 + final.failed) :=
    hshown.read fun _ hencodes => hencodes.word
  change resultDiscipline.Keeps (PollPromise id) I
    (if restoreErrorBytes < t.fields (slotOf id) .result / 2 then _ else _) held t
  split
  · exact fun _ _ => promise_error _
  · refine act stable_shown hread fun u _ hread => ⟨.plain trivial, ?_⟩
    refine keeps_respond (hread.read fun hword hencodes => ⟨hword, ?_⟩)
    have hlength : t.fields (slotOf id) .result / 2 = (storedMessage final).length := by
      rw [hword]
      cases final with
      | ok => exact Nat.mul_div_cancel _ (by decide)
      | error =>
        rw [RestoreResult.failed]
        omega
    change loadBytes (u.texts (slotOf id)) 0 (t.fields (slotOf id) .result / 2) = _
    rw [hlength, hencodes.text]

theorem keeps_poll (id : Nat) : resultDiscipline.Keeps (PollPromise id) I (poll id) held area := by
  rw [poll_eq]
  unfold offset
  split
  case isTrue => exact fun _ _ => promise_error _
  case isFalse hvalid =>
    rw [Process.done_bind]
    refine keeps_state stable_true trivial (fun t current hfits _ hstate => ?_) fun error _ =>
      promise_error error
    split
    · exact fun _ _ => promise_error _
    · split
      case isTrue =>
        intro u _ response hresponse hpending
        cases hresponse
        exact absurd rfl hpending
      case isFalse hreaped =>
        obtain rfl := not_not.mp hreaped
        obtain ⟨final, hfinishes, hencodes⟩ := hfits.1.final id .reaped hstate.pos hstate.tag rfl
        exact keeps_pollResult ⟨hfinishes, .inr ⟨hstate.tag, hencodes, trivial⟩⟩

end Calls

end OrbitKV
