import OrbitKV.Peer.Execute
import OrbitKV.Proof.FetchPlan

/-!
# Fetch execution

A pass that does not end the loop fetches a segment or is one of the rejections that are retried.
-/

namespace OrbitKV

open FetchEvent List

namespace FetchEvent

def call : FetchEvent → Nat
  | .asked call _ _ _ | .granted call _ _ | .refused call _ _ _ _ | .submitted call _ _ => call

def consumed : FetchEvent → Option Nat
  | .submitted call _ _ => some call
  | _ => none

def readOf : FetchEvent → Option FetchSegment
  | .submitted _ _ segment => some segment
  | _ => none

def isDemandRejection : FetchEvent → Bool
  | .refused _ .demand .rejected _ _ => true
  | _ => false

def InRows (index start : Nat) (segment : FetchSegment) : Prop :=
  start ≤ index ∧ index < start + segment.records.length

def Respects (earlier later : FetchEvent) : Prop :=
  ∀ call start segment call' mode start' segment',
    earlier = .refused call .demand .rejected start segment →
    later = .asked call' mode start' segment' → segment'.owner = segment.owner →
    ∀ index, InRows index start segment → ¬InRows index start' segment'

theorem respects_of_ne_asked {earlier later : FetchEvent}
    (hne : ∀ call mode start segment, later ≠ .asked call mode start segment) :
    earlier.Respects later :=
  fun _ _ _ _ _ _ _ _ hlater => absurd hlater (hne _ _ _ _)

end FetchEvent

namespace FetchPlan

variable {plan : FetchPlan} {start : Nat}
  {row : ReplicaSet}

theorem mem_slice_iff {count : Nat} :
    row ∈ plan.slice start count ↔
      ∃ index, start ≤ index ∧ index < start + count ∧ plan.rows[index]? = some row := by
  rw [slice, mem_iff_getElem?]
  constructor
  · rintro ⟨offset, hoffset⟩
    rw [getElem?_take, getElem?_drop] at hoffset
    split at hoffset
    next hlt => exact ⟨start + offset, by omega, by omega, hoffset⟩
    next => cases hoffset
  · rintro ⟨index, hle, hlt, hrow⟩
    refine ⟨index - start, ?_⟩
    rw [getElem?_take, if_pos (by omega), getElem?_drop, Nat.add_sub_cancel' hle]
    exact hrow

theorem map_key_reject (segment : FetchSegment) :
    (plan.reject start segment).rows.map (·.key) = plan.rows.map (·.key) := by
  apply ext_getElem?
  intro index
  rw [getElem?_map, getElem?_map, reject, getElem?_mapIdx, Option.map_map]
  congr 1
  funext row
  dsimp only [Function.comp]
  split <;> rfl

theorem covers_of_mem_slice_reject {segment : FetchSegment} {from' count : Nat}
    (hrow : row ∈ (plan.reject start segment).slice from' count) :
    ∃ old ∈ plan.slice from' count, ∀ medium owner, row.covers medium owner →
      old.covers medium owner := by
  obtain ⟨index, hle, hlt, hat⟩ := mem_slice_iff.mp hrow
  rw [reject, getElem?_mapIdx, Option.map_eq_some_iff] at hat
  obtain ⟨old, hold, rfl⟩ := hat
  refine ⟨old, mem_slice_iff.mpr ⟨index, hle, hlt, hold⟩, fun medium owner hcovers => ?_⟩
  split at hcovers
  · rw [ReplicaSet.covers_rejectPeer, Bool.and_eq_true] at hcovers
    exact hcovers.1
  · exact hcovers

theorem not_covers_of_mem_slice_reject {segment : FetchSegment}
    (hrow : row ∈ (plan.reject start segment).slice start segment.records.length)
    (medium : ReplicaMedium) : row.covers medium segment.owner = false := by
  obtain ⟨index, hle, hlt, hat⟩ := mem_slice_iff.mp hrow
  rw [reject, getElem?_mapIdx, Option.map_eq_some_iff] at hat
  obtain ⟨old, _, rfl⟩ := hat
  rw [if_pos (by simp [hle, hlt]), ReplicaSet.covers_rejectPeer]
  simp

namespace SegmentAt

variable {segment : FetchSegment} (hat : plan.SegmentAt start segment)

include hat

theorem length_pos : 0 < segment.records.length := by
  obtain ⟨_, _, hfits, _⟩ := hat.row
  have hforward := hfits.forward
  omega

theorem covers {row : ReplicaSet} (hrow : row ∈ plan.slice start segment.records.length) :
    row.covers plan.source.medium segment.owner := by
  obtain ⟨_, _, hfits, _⟩ := hat.row
  apply hfits.covers
  rwa [Nat.add_sub_cancel_left]

theorem within : start + segment.records.length ≤ plan.rows.length := by
  obtain ⟨_, _, hfits, _⟩ := hat.row
  exact hfits.within

theorem keys_prefix : segment.records.map (·.key) <+: (plan.rows.map (·.key)).drop start := by
  rw [keys_of_isRecordOf hat.records, slice, map_take, map_drop]
  exact take_prefix _ _

end SegmentAt

end FetchPlan

structure LogSound (log : List FetchEvent) (attempts : Nat) (plan : FetchPlan) : Prop where
  calls : ∀ event ∈ log, event.call ≤ attempts
  once : (log.filterMap consumed).Nodup
  issued : ∀ call start segment, .submitted call start segment ∈ log →
    .granted call start segment ∈ log
  gone : ∀ call start segment, .refused call .demand .rejected start segment ∈ log →
    ∀ row ∈ plan.slice start segment.records.length, ∀ medium,
      row.covers medium segment.owner = false
  respects : log.Pairwise Respects

namespace LogSound

variable {log : List FetchEvent} {attempts : Nat} {plan : FetchPlan}

section

variable (hlog : LogSound log attempts plan)
  {start : Nat} {segment : FetchSegment}

include hlog

theorem call_le_of_consumed {call : Nat}
    (hcall : call ∈ log.filterMap consumed) : call ≤ attempts := by
  obtain ⟨event, hmem, hconsumed⟩ := List.mem_filterMap.mp hcall
  have hle := hlog.calls event hmem
  cases event <;> cases hconsumed
  exact hle

theorem append {attempts' : Nat} {event : FetchEvent}
    (hattempts : attempts ≤ attempts') (hcall : event.call ≤ attempts')
    (honce : ∀ call, event.consumed = some call → call ∉ log.filterMap consumed)
    (hissued : ∀ call start segment, event = .submitted call start segment →
      .granted call start segment ∈ log)
    (hgone : ∀ call start segment, event = .refused call .demand .rejected start segment →
      ∀ row ∈ plan.slice start segment.records.length, ∀ medium,
        row.covers medium segment.owner = false)
    (hrespects : ∀ earlier ∈ log, earlier.Respects event) :
    LogSound (log ++ [event]) attempts' plan where
  calls other hother := by
    rcases List.mem_append.mp hother with hmem | hmem
    · exact (hlog.calls other hmem).trans hattempts
    · rwa [List.mem_singleton.mp hmem]
  once := by
    rw [filterMap_append]
    cases hconsumed : event.consumed with
    | none => simpa [hconsumed] using hlog.once
    | some call =>
      have hnew := honce call hconsumed
      simp only [filterMap_cons, hconsumed, filterMap_nil]
      exact List.nodup_append.mpr ⟨hlog.once, nodup_singleton _, by grind⟩
  issued call start segment hmem := by
    apply mem_append_left
    rcases List.mem_append.mp hmem with hmem | hmem
    · exact hlog.issued call start segment hmem
    · exact hissued call start segment (List.mem_singleton.mp hmem).symm
  gone call start segment hmem := by
    rcases List.mem_append.mp hmem with hmem | hmem
    · exact hlog.gone call start segment hmem
    · exact hgone call start segment (List.mem_singleton.mp hmem).symm
  respects := by
    apply List.pairwise_append.mpr
    refine ⟨hlog.respects, pairwise_singleton _ _, fun earlier hearlier later hlater => ?_⟩
    rw [List.mem_singleton.mp hlater]
    exact hrespects earlier hearlier

theorem respects_asked
    (hat : plan.SegmentAt start segment) (call' : Nat) (mode : AuthorizationMode) :
    ∀ earlier ∈ log, earlier.Respects (.asked call' mode start segment) := by
  rintro earlier hmem call start₀ rejected _ _ _ _ rfl hlater howner index hrejected hasked
  cases hlater
  have hrow := getElem?_eq_getElem (hasked.2.trans_le hat.within)
  have hcovers := hat.covers (FetchPlan.mem_slice_iff.mpr ⟨index, hasked.1, hasked.2, hrow⟩)
  have hgone := hlog.gone call start₀ rejected hmem _
    (FetchPlan.mem_slice_iff.mpr ⟨index, hrejected.1, hrejected.2, hrow⟩) plan.source.medium
  rw [howner, hgone] at hcovers
  cases hcovers

theorem asked (hat : plan.SegmentAt start segment) (mode : AuthorizationMode) :
    LogSound (log ++ [.asked (attempts + 1) mode start segment]) (attempts + 1) plan :=
  hlog.append (Nat.le_succ attempts) le_rfl nofun nofun nofun
    (hlog.respects_asked hat (attempts + 1) mode)

theorem granted (start : Nat) (segment : FetchSegment) :
    LogSound (log ++ [.granted attempts start segment]) attempts plan :=
  hlog.append le_rfl le_rfl nofun nofun nofun fun _ _ => respects_of_ne_asked nofun

theorem refused {mode : AuthorizationMode}
    {error : AuthorizationError}
    (hgone : mode = .demand → error = .rejected →
      ∀ row ∈ plan.slice start segment.records.length, ∀ medium,
        row.covers medium segment.owner = false) :
    LogSound (log ++ [.refused attempts mode error start segment]) attempts plan := by
  refine hlog.append le_rfl le_rfl nofun nofun ?_ fun _ _ => respects_of_ne_asked nofun
  rintro _ _ _ hevent
  cases hevent
  exact hgone rfl rfl

theorem submitted {grant : Nat} (hgranted : .granted grant start segment ∈ log)
    (hfresh : grant ∉ log.filterMap consumed) :
    LogSound (log ++ [.submitted grant start segment]) attempts plan := by
  have hcall : grant ≤ attempts := hlog.calls _ hgranted
  refine hlog.append le_rfl hcall ?_ ?_ nofun fun _ _ => respects_of_ne_asked nofun
  · rintro _ hconsumed
    cases hconsumed
    exact hfresh
  · rintro _ _ _ hevent
    cases hevent
    exact hgranted

theorem reject (start : Nat) (segment : FetchSegment) :
    LogSound log attempts (plan.reject start segment) :=
  { hlog with
    gone := fun call from' other hmem row hrow medium => by
      obtain ⟨old, hold, hcovers⟩ := FetchPlan.covers_of_mem_slice_reject hrow
      have hgone := hlog.gone call from' other hmem old hold medium
      by_contra hne
      rw [hcovers medium other.owner (Bool.not_eq_false _ ▸ hne)] at hgone
      cases hgone }

end

end LogSound

/-- What a pass adds to the blocks if it reads the segment. -/
def Turn.taken {α : Type} (turn : Turn α) (segment : FetchSegment) : List (StateKey × α) :=
  turn.returned.elim [] fun returned => returned.take (contiguous segment returned)

structure Ready (keys : List StateKey) (log : List FetchEvent) (start : Nat)
    (segment : FetchSegment) (grant : Nat) : Prop where
  granted : .granted grant start segment ∈ log
  fresh : grant ∉ log.filterMap consumed
  rows : segment.records.map (·.key) <+: keys.drop start
  length_pos : 0 < segment.records.length

namespace FetchLoop

variable {α : Type} {keys : List StateKey} {s : FetchLoop α}
  {start : Nat} {segment : FetchSegment}

structure Kept (keys : List StateKey) (s : FetchLoop α) : Prop where
  rows : s.plan.rows.map (·.key) = keys
  blocks : s.fetched.map Prod.fst <+: keys
  log : LogSound s.log s.attempts s.plan
  rejections : s.log.countP isDemandRejection = s.rejected

structure Sound (keys : List StateKey) (s : FetchLoop α) : Prop extends Kept keys s where
  few : s.rejected ≤ maxAuthorizationRetries
  prepared : ∀ segment grant, s.prepared = some (segment, grant) →
    Ready keys s.log s.fetched.length segment grant
  idle : s.fetched = [] → s.log.filterMap consumed = []

structure Done (keys : List StateKey) (s : FetchLoop α) (status : FetchStatus) : Prop
    extends Kept keys s where
  few : s.rejected ≤ maxAuthorizationRetries + 1
  status_ne : status ≠ .complete
  idle : status = .authorizationExhausted → s.fetched = [] → s.log.filterMap consumed = []

theorem Sound.init (plan : FetchPlan) :
    Sound (plan.rows.map (·.key)) (FetchLoop.init plan : FetchLoop α) where
  rows := rfl
  blocks := nil_prefix
  log := ⟨nofun, .nil, nofun, nofun, .nil⟩
  rejections := rfl
  few := Nat.zero_le _
  prepared := nofun
  idle _ := rfl

theorem Kept.ask (hs : Kept keys s)
    (hat : s.plan.SegmentAt start segment) (mode : AuthorizationMode) :
    Kept keys (s.ask mode start segment) where
  rows := hs.rows
  blocks := hs.blocks
  log := hs.log.asked hat mode
  rejections := by
    rw [FetchLoop.ask, countP_append, hs.rejections]
    rfl

@[simp] theorem consumed_ask (s : FetchLoop α) (mode : AuthorizationMode) (start : Nat)
    (segment : FetchSegment) :
    (s.ask mode start segment).log.filterMap consumed = s.log.filterMap consumed := by
  simp [ask, consumed]

theorem Kept.answer_ok (hs : Kept keys s)
    (hat : s.plan.SegmentAt start segment) (mode : AuthorizationMode) :
    let answered := ((s.ask mode start segment).answer mode start segment none).2
    Kept keys answered ∧ Ready keys answered.log start segment (s.attempts + 1) := by
  have hasked := hs.ask hat mode
  refine ⟨⟨hs.rows, hs.blocks, hasked.log.granted start segment, ?_⟩, ?_, ?_, ?_, hat.length_pos⟩
  · rw [answer, countP_append, hasked.rejections]
    rfl
  · exact mem_append_right _ (mem_singleton_self _)
  · rw [answer, filterMap_append, consumed_ask]
    intro hmem
    have hle := hs.log.call_le_of_consumed (by simpa [consumed] using hmem)
    omega
  · rw [← hs.rows]
    exact hat.keys_prefix

theorem Kept.answer_refused (hs : Kept keys s)
    (hat : s.plan.SegmentAt start segment) {mode : AuthorizationMode} {error : AuthorizationError}
    (hother : mode = .demand → error ≠ .rejected) :
    Kept keys ((s.ask mode start segment).answer mode start segment (some error)).2 := by
  have hasked := hs.ask hat mode
  refine ⟨hs.rows, hs.blocks, hasked.log.refused fun hmode herror => absurd herror (hother hmode), ?_⟩
  rw [answer, countP_append, hasked.rejections]
  cases mode <;> cases error <;> first | rfl | exact absurd rfl (hother rfl)

theorem Kept.submit (hs : Kept keys s) {grant : Nat}
    (hready : Ready keys s.log s.fetched.length segment grant) :
    Kept keys (s.submit grant segment) where
  rows := hs.rows
  blocks := hs.blocks
  log := hs.log.submitted hready.granted hready.fresh
  rejections := by
    rw [FetchLoop.submit, countP_append, hs.rejections]
    rfl

structure Looked (keys : List StateKey) (s : FetchLoop α) (start : Nat)
    (next : Option FetchSegment) (grant : Option Nat) (s' : FetchLoop α) : Prop
    extends Kept keys s' where
  plan : s'.plan = s.plan
  fetched : s'.fetched = s.fetched
  rejected : s'.rejected = s.rejected
  ready : ∀ segment call, next = some segment → grant = some call →
    Ready keys s'.log start segment call

theorem Kept.authorizeNext (hs : Kept keys s) (turn : Turn α) {next : Option FetchSegment}
    (hnext : ∀ segment ∈ next, s.plan.SegmentAt start segment) (complete : Bool) :
    Looked keys s start next (s.authorizeNext turn start next complete).1
      (s.authorizeNext turn start next complete).2 := by
  unfold FetchLoop.authorizeNext
  cases next with
  | none => exact ⟨hs, rfl, rfl, rfl, nofun⟩
  | some segment =>
    have hat := hnext segment rfl
    have hasked := hs.ask hat .lookahead
    dsimp only
    split
    · exact ⟨hs, rfl, rfl, rfl, nofun⟩
    split
    · exact ⟨hasked, rfl, rfl, rfl, nofun⟩
    cases turn.lookaheadError with
    | none =>
      obtain ⟨hkept, hready⟩ := hs.answer_ok hat .lookahead
      refine ⟨hkept, rfl, rfl, rfl, ?_⟩
      rintro _ call ⟨rfl⟩ hgrant
      cases complete <;> cases hgrant
      exact hready
    | some error =>
      refine ⟨hs.answer_refused hat nofun, rfl, rfl, rfl, ?_⟩
      rintro _ call ⟨rfl⟩ hgrant
      cases complete <;> cases hgrant

theorem contiguous_le (segment : FetchSegment) (blocks : List (StateKey × α)) :
    contiguous segment blocks ≤ blocks.length ∧
      contiguous segment blocks ≤ segment.records.length := by
  have hle := (takeWhile_sublist (fun pair : (StateKey × α) × InventoryRecord =>
    decide (pair.1.1 = pair.2.key)) (l := blocks.zip segment.records)).length_le
  rw [length_zip] at hle
  exact ⟨hle.trans (Nat.min_le_left _ _), hle.trans (Nat.min_le_right _ _)⟩

theorem contiguous_isPrefix (segment : FetchSegment) (blocks : List (StateKey × α)) :
    (blocks.take (contiguous segment blocks)).map Prod.fst <+: segment.records.map (·.key) := by
  unfold contiguous
  generalize segment.records = records
  induction blocks generalizing records with
  | nil => exact nil_prefix
  | cons block blocks ih =>
    cases records with
    | nil => exact nil_prefix
    | cons record records =>
      by_cases hkey : block.1 = record.key
      · rw [zip_cons_cons, takeWhile_cons_of_pos (by simpa using hkey),
          length_cons, take_succ_cons, map_cons, map_cons, hkey]
        exact prefix_cons_inj _ |>.mpr (ih records)
      · rw [zip_cons_cons, takeWhile_cons_of_neg (by simpa using hkey)]
        exact nil_prefix

theorem Kept.extend (hs : Kept keys s)
    (hrows : segment.records.map (·.key) <+: keys.drop s.fetched.length)
    (returned : List (StateKey × α)) :
    Kept keys { s with fetched := s.fetched ++ returned.take (contiguous segment returned) } :=
  { hs with
    blocks := by
      obtain ⟨rest, hrest⟩ := hs.blocks
      have hdrop : keys.drop s.fetched.length = rest := by
        rw [← hrest, ← length_map Prod.fst, drop_left]
      rw [map_append, ← hrest, prefix_append_right_inj, ← hdrop]
      exact (contiguous_isPrefix segment returned).trans hrows }

def Passed (keys : List StateKey) (s : FetchLoop α) (pass : FetchLoop α × Option FetchStatus) :
    Prop :=
  match pass.2 with
  | some status => Done keys pass.1 status
  | none => Sound keys pass.1 ∧
      s.fetched.length + s.rejected < pass.1.fetched.length + pass.1.rejected

theorem Kept.read (hs : Kept keys s) (hfew : s.rejected ≤ maxAuthorizationRetries) (turn : Turn α)
    {grant : Nat} (hready : Ready keys s.log s.fetched.length segment grant) :
    Passed keys s (s.read turn segment grant) := by
  have hnext : ∀ next ∈ s.plan.nextSegment turn.nextRoute
      (s.fetched.length + segment.records.length),
      (s.submit grant segment).plan.SegmentAt (s.fetched.length + segment.records.length) next :=
    fun next hnext => FetchPlan.segmentAt_of_nextSegment hnext
  have hlooked := (hs.submit hready).authorizeNext turn hnext
    (turn.returned.any (isComplete segment))
  simp only [FetchLoop.read]
  generalize s.plan.nextSegment turn.nextRoute (s.fetched.length + segment.records.length) = next
    at hlooked
  generalize (s.submit grant segment).authorizeNext turn
    (s.fetched.length + segment.records.length) next (turn.returned.any (isComplete segment)) =
    looked at hlooked
  obtain ⟨nextGrant, s'⟩ := looked
  have hfetched : s'.fetched = s.fetched := hlooked.fetched
  have hrejected : s'.rejected = s.rejected := hlooked.rejected
  cases turn.returned with
  | none => exact ⟨hlooked.toKept, by dsimp only; omega, nofun, nofun⟩
  | some returned =>
    have hextended := hlooked.toKept.extend (hfetched ▸ hready.rows) returned
    dsimp only
    split
    · exact ⟨hextended, by dsimp only; omega, nofun, nofun⟩
    next hwhole =>
      have hcount : contiguous segment returned = segment.records.length := by
        by_contra hne
        exact hwhole (by simp [hne])
      have hlength : (s'.fetched ++ returned.take (contiguous segment returned)).length =
          s.fetched.length + segment.records.length := by
        have hle := (contiguous_le segment returned).1
        rw [length_append, length_take, hfetched]
        omega
      have hpos := hready.length_pos
      refine ⟨⟨⟨hextended.rows, hextended.blocks, hextended.log, hextended.rejections⟩, ?_, ?_, ?_⟩,
        ?_⟩
      · exact hrejected.trans_le hfew
      · intro ahead call hprepared
        obtain ⟨segment', hsegment, hgrant⟩ := Option.bind_eq_some_iff.mp hprepared
        obtain ⟨call', hcall, hpair⟩ := Option.map_eq_some_iff.mp hgrant
        cases hpair
        rw [hlength]
        exact hlooked.ready ahead call hsegment hcall
      · intro hnil
        have hzero := congrArg List.length hnil
        rw [hlength, length_nil] at hzero
        omega
      · dsimp only
        omega

theorem Sound.rejected (hs : Sound keys s) (hnone : s.prepared = none)
    (hat : s.plan.SegmentAt s.fetched.length segment) :
    let asked := ((s.ask .demand s.fetched.length segment).answer .demand s.fetched.length segment
      (some .rejected)).2
    Passed keys s ({ asked with
        plan := asked.plan.reject asked.fetched.length segment
        rejected := asked.rejected + 1 },
      if maxAuthorizationRetries < asked.rejected + 1 then some .authorizationExhausted
      else none) := by
  intro asked
  have hkept : Kept keys { asked with
      plan := asked.plan.reject asked.fetched.length segment
      rejected := asked.rejected + 1 } := by
    have hasked := hs.toKept.ask hat .demand
    refine ⟨?_, hs.blocks, ?_, ?_⟩
    · exact (FetchPlan.map_key_reject segment).trans hs.rows
    · apply (hasked.log.reject s.fetched.length segment).refused
      intro _ _ row hrow medium
      exact FetchPlan.not_covers_of_mem_slice_reject hrow medium
    · dsimp only [asked]
      rw [answer, countP_append, hasked.rejections]
      rfl
  have hidle : s.fetched = [] → asked.log.filterMap consumed = [] := by
    intro hnil
    dsimp only [asked]
    rw [answer, filterMap_append, consumed_ask, hs.idle hnil]
    rfl
  have hfew : asked.rejected ≤ maxAuthorizationRetries := hs.few
  by_cases hmax : maxAuthorizationRetries < asked.rejected + 1
  · rw [if_pos hmax]
    exact ⟨hkept, Nat.succ_le_succ hfew, nofun, fun _ => hidle⟩
  · rw [if_neg hmax]
    refine ⟨⟨hkept, Nat.not_lt.mp hmax, ?_, hidle⟩, Nat.lt_succ_self _⟩
    intro _ _ hprepared
    cases hnone.symm.trans hprepared

theorem Sound.next (hs : Sound keys s) (turn : Turn α) : Passed keys s (s.next turn) := by
  unfold FetchLoop.next FetchLoop.acquire
  cases hprepared : s.prepared with
  | some pair =>
    obtain ⟨segment, grant⟩ := pair
    have hready := hs.prepared segment grant hprepared
    have hkept : Kept keys { s with prepared := none } :=
      ⟨hs.rows, hs.blocks, hs.log, hs.rejections⟩
    exact hkept.read hs.few turn hready
  | none =>
    cases hsegment : s.plan.nextSegment turn.route s.fetched.length with
    | none => exact ⟨hs.toKept, hs.few.trans (Nat.le_succ _), nofun, fun _ => hs.idle⟩
    | some segment =>
      have hat := FetchPlan.segmentAt_of_nextSegment hsegment
      have hasked := hs.toKept.ask hat .demand
      cases turn.demandError with
      | none =>
        obtain ⟨hkept, hready⟩ := hs.toKept.answer_ok hat .demand
        exact hkept.read hs.few turn hready
      | some error =>
        cases error with
        | failed =>
          refine ⟨hs.toKept.answer_refused hat nofun, hs.few.trans (Nat.le_succ _), nofun, nofun⟩
        | rejected => exact hs.rejected hprepared hat

theorem Sound.run (turns : Nat → Turn α) {passes index : Nat} (hs : Sound keys s)
    (hpasses : keys.length + maxAuthorizationRetries < s.fetched.length + s.rejected + passes) :
    ∃ s' status, FetchLoop.run turns passes index s = some (FetchLoop.finish s' status, s'.log) ∧
      Done keys s' status := by
  induction passes generalizing index s with
  | zero =>
    have hlength := hs.blocks.length_le
    have hfew := hs.few
    rw [length_map] at hlength
    omega
  | succ passes ih =>
    have hpassed := hs.next (turns index)
    rw [FetchLoop.run]
    unfold Passed at hpassed
    split
    next s' status hnext =>
      rw [hnext] at hpassed
      exact ⟨s', status, rfl, hpassed⟩
    next s' hnext =>
      rw [hnext] at hpassed
      exact ih hpassed.1 (by have hlt := hpassed.2; dsimp only at hlt; omega)

theorem Done.status_finish_iff {status : FetchStatus} (hs : Done keys s status) :
    (s.finish status).status = .complete ↔ s.fetched.length = keys.length := by
  have hcount : s.plan.blockCount = keys.length := by
    rw [← hs.rows, length_map, FetchPlan.blockCount]
  rw [finish, hcount]
  split
  next hwhole => exact iff_of_true rfl hwhole
  next hpart => exact iff_of_false hs.status_ne hpart

/-- The blocks and the segments read for them. -/
def delivered (s : FetchLoop α) : List (StateKey × α) × List FetchSegment :=
  (s.fetched, s.log.filterMap readOf)

theorem delivered_authorizeNext (s : FetchLoop α) (turn : Turn α) (start : Nat)
    (next : Option FetchSegment) (complete : Bool) :
    (s.authorizeNext turn start next complete).2.delivered = s.delivered := by
  unfold FetchLoop.authorizeNext
  cases next with
  | none => rfl
  | some segment =>
    dsimp only
    split
    · rfl
    split
    · simp [delivered, ask, readOf]
    · cases turn.lookaheadError <;> simp [delivered, ask, answer, readOf]

theorem delivered_read (s : FetchLoop α) (turn : Turn α) (segment : FetchSegment) (grant : Nat) :
    (s.read turn segment grant).1.delivered =
      (s.fetched ++ turn.taken segment, s.log.filterMap readOf ++ [segment]) := by
  have hlooked := delivered_authorizeNext (s.submit grant segment) turn
  have hsubmit : (s.submit grant segment).delivered =
      (s.fetched, s.log.filterMap readOf ++ [segment]) := by
    simp [delivered, submit, readOf]
  rw [hsubmit] at hlooked
  simp only [FetchLoop.read, Turn.taken]
  cases turn.returned with
  | none => exact (hlooked ..).trans (congrArg (·, _) (append_nil _).symm)
  | some returned =>
    dsimp only
    split <;> exact congrArg (Prod.map (· ++ _) id) (hlooked ..)

theorem delivered_next (s : FetchLoop α) (turn : Turn α) : ∃ read : Option FetchSegment,
    (s.next turn).1.delivered =
      (s.fetched ++ read.elim [] turn.taken, s.log.filterMap readOf ++ read.toList) := by
  unfold FetchLoop.next FetchLoop.acquire
  cases s.prepared with
  | some pair => exact ⟨some pair.1, delivered_read _ turn _ _⟩
  | none =>
    cases s.plan.nextSegment turn.route s.fetched.length with
    | none => exact ⟨none, by simp [delivered]⟩
    | some segment =>
      cases turn.demandError with
      | none =>
        refine ⟨some segment, (delivered_read _ turn _ _).trans ?_⟩
        simp [ask, filterMap_cons, readOf]
      | some error =>
        refine ⟨none, ?_⟩
        cases error <;> simp [delivered, ask, answer, filterMap_cons, readOf]

theorem delivered_run (turns : Nat → Turn α) {passes index : Nat} {result : FetchResult α}
    {log : List FetchEvent} (hrun : FetchLoop.run turns passes index s = some (result, log)) :
    ∃ reads : List (Option FetchSegment),
      result.blocks = s.fetched ++
        (reads.zipIdx index).flatMap (fun (read, pass) => read.elim [] (turns pass).taken) ∧
      log.filterMap readOf = s.log.filterMap readOf ++ reads.reduceOption := by
  induction passes generalizing index s with
  | zero => cases hrun
  | succ passes ih =>
    obtain ⟨read, hread⟩ := s.delivered_next (turns index)
    obtain ⟨hfetched, hlog⟩ := Prod.mk.inj hread
    rw [FetchLoop.run] at hrun
    split at hrun
    next s' status hnext =>
      cases hrun
      rw [hnext] at hfetched hlog
      refine ⟨[read], by simpa [finish] using hfetched, ?_⟩
      cases read <;> exact hlog
    next s' hnext =>
      rw [hnext] at hfetched hlog
      obtain ⟨reads, hblocks, hreads⟩ := ih hrun
      refine ⟨read :: reads, ?_, ?_⟩
      · rw [hblocks, hfetched, zipIdx_cons, flatMap_cons, append_assoc]
      · rw [hreads, hlog, append_assoc]
        cases read <;> rfl

end FetchLoop

/-- For every plan and whatever `authorize_segment` and `fetch_segment` return, `execute_fetch_plan`
returns after at most three demand rejections, with the blocks of a prefix of the rows. The blocks are
what the segments that it reads return, pass after pass, as far as the keys are those asked for. -/
theorem execute_fetch_plan_returns {α : Type} (turns : Nat → Turn α) (plan : FetchPlan) :
    ∃ result log, executeFetchPlan turns plan = some (result, log) ∧
      log.countP isDemandRejection ≤ 3 ∧
      result.blocks.map Prod.fst <+: plan.rows.map (·.key) ∧
      (∃ reads : List (Option FetchSegment), log.filterMap readOf = reads.reduceOption ∧
        result.blocks = reads.zipIdx.flatMap fun (read, pass) => read.elim [] (turns pass).taken) ∧
      (result.status = .complete ↔ result.blocks.length = plan.blockCount) ∧
      (log.filterMap consumed).Nodup ∧
      (∀ call start segment, .submitted call start segment ∈ log →
        .granted call start segment ∈ log) ∧
      log.Pairwise Respects ∧
      (result.canReplan → log.filterMap consumed = []) := by
  have hpasses : (plan.rows.map (·.key)).length + maxAuthorizationRetries <
      0 + 0 + (plan.blockCount + maxAuthorizationRetries + 1) := by
    rw [length_map, FetchPlan.blockCount]
    omega
  obtain ⟨s, status, hrun, hdone⟩ := (FetchLoop.Sound.init plan).run turns hpasses
  obtain ⟨reads, hblocks, hreads⟩ := FetchLoop.delivered_run turns hrun
  refine ⟨s.finish status, s.log, hrun, ?_, hdone.blocks, ⟨reads, hreads, hblocks⟩, ?_,
    hdone.log.once, hdone.log.issued, hdone.log.respects, ?_⟩
  · rw [hdone.rejections]
    exact hdone.few
  · rw [hdone.status_finish_iff, length_map]
    rfl
  · intro hreplan
    obtain ⟨hstatus, hempty⟩ := Bool.and_eq_true_iff.mp hreplan
    apply hdone.idle ?_ (List.isEmpty_iff.mp hempty)
    have hexhausted := of_decide_eq_true hstatus
    rw [FetchLoop.finish] at hexhausted
    split at hexhausted
    · cases hexhausted
    · exact hexhausted

/-- The first peer rejects the demand; while the second one is read, the third is authorized. -/
example :
    let plan : FetchPlan :=
      ⟨[FetchPlan.sampleRow 1 [⟨"a", 1⟩, ⟨"b", 2⟩], FetchPlan.sampleRow 2 [⟨"c", 3⟩]], .dram⟩
    let turn (error : Option AuthorizationError) (hash : UInt8) : Turn UInt8 :=
      ⟨FetchPlan.plainRoute, error, FetchPlan.plainRoute, .returned, none,
        some [(⟨"model", [hash]⟩, hash)]⟩
    let turns := fun | 0 => turn (some .rejected) 1 | index => turn none (.ofNat index)
    (executeFetchPlan turns plan).map (fun outcome =>
        (outcome.1.blocks.map Prod.snd, outcome.1.status, outcome.2.filterMap consumed)) =
      some ([1, 2], .complete, [2, 3]) := by
  decide +kernel

end OrbitKV
