import OrbitKV.Cluster.Watch

/-!
# Agreement of the followed membership

What a watch has sent and the follower has not applied are revisions without events of the cluster,
so a watch resumed behind the applied revision misses nothing.
-/

namespace OrbitKV

open Std Follower List
open MembershipView (memberMap replaceMembers renew invalidateSnapshot fence)

theorem stripPrefix_eq_some {pre text rest : String} :
    stripPrefix pre text = some rest ↔ text = pre ++ rest := by
  unfold stripPrefix
  constructor
  · intro hstrip
    split at hstrip
    next hprefix =>
      obtain ⟨tail, htail⟩ := List.isPrefixOf_iff_prefix.mp hprefix
      rw [← Option.some.inj hstrip, ← htail, drop_left, ← String.toList_inj,
        String.toList_append, String.toList_ofList, htail]
    next => cases hstrip
  · rintro rfl
    rw [if_pos]
    · rw [String.toList_append, drop_left, String.ofList_toList]
    · rw [String.toList_append]
      exact List.isPrefixOf_iff_prefix.mpr (prefix_append _ _)

namespace FollowConfig

variable {V : Type} (cfg : FollowConfig V)
  {members : Members}

def Decodes (lookup : String → Option (Item V)) (members : Members) : Prop :=
  ∀ node, (lookup (memberKey cfg.pre node)).map (cfg.decodeMember node) = members[node]?.map .ok

def FormatHolds (lookup : String → Option (Item V)) : Prop :=
  ∃ item, lookup (formatKey cfg.pre) = some item ∧ cfg.formatMatches item = true

structure Agrees (lookup : String → Option (Item V)) (members : Members) : Prop where
  decodes : cfg.Decodes lookup members
  format : cfg.FormatHolds lookup
  registration : members[cfg.registration.nodeId]? = some cfg.registration

/-- The record of the runtime itself and the format record are the expected ones. -/
def Matching (lookup : String → Option (Item V)) : Prop :=
  (lookup (memberKey cfg.pre cfg.registration.nodeId)).map
      (cfg.decodeMember cfg.registration.nodeId) = some (.ok cfg.registration) ∧
    cfg.FormatHolds lookup

/-- The records that `decode` accepts. -/
inductive Accepts (key : String) (item : Item V) (deleted : Bool) (members : Members)
    (formatValid : Bool) : Members → Bool → Prop
  | format (hkey : key = formatKey cfg.pre) (hdeleted : deleted = false)
      (hmatches : cfg.formatMatches item = true) :
      Accepts key item deleted members formatValid members true
  | member (node : String) (member : Member) (hkey : key = memberKey cfg.pre node)
      (hmember : cfg.decodeMember node item = .ok member) :
      Accepts key item deleted members formatValid
        (if deleted then members.erase node else members.insert node member) formatValid
  | epoch (node : String) (hkey : key = epochKey cfg.pre node) :
      Accepts key item deleted members formatValid members formatValid

variable {cfg}

theorem inPrefix_memberKey (node : String) : cfg.inPrefix (memberKey cfg.pre node) = true := by
  have hkey : memberKey cfg.pre node = cfg.pre ++ ("members/" ++ node) := String.append_assoc ..
  rw [inPrefix, stripPrefix_eq_some.mpr hkey]
  rfl

theorem inPrefix_formatKey : cfg.inPrefix (formatKey cfg.pre) = true := by
  have hkey : formatKey cfg.pre = cfg.pre ++ "format" := rfl
  rw [inPrefix, stripPrefix_eq_some.mpr hkey]
  rfl

theorem accepts_of_decode {key : String} {item : Item V} {deleted formatValid : Bool}
    {result : Members × Bool}
    (hdecode : cfg.decode key item deleted members formatValid = .ok result) :
    cfg.Accepts key item deleted members formatValid result.1 result.2 := by
  unfold decode at hdecode
  split at hdecode
  · cases hdecode
  next suffix hsuffix =>
  obtain rfl := stripPrefix_eq_some.mp hsuffix
  split at hdecode
  · cases hdecode
  next =>
  split at hdecode
  next hformat =>
    subst hformat
    split at hdecode
    next hvalid =>
      cases hdecode
      rw [Bool.and_eq_true, Bool.not_eq_true'] at hvalid
      exact .format rfl hvalid.1 hvalid.2
    next => cases hdecode
  next =>
  split at hdecode
  next node hnode =>
    obtain rfl := stripPrefix_eq_some.mp hnode
    split at hdecode
    · cases hdecode
    next member hmember =>
    by_cases hlimit : maxMembers <
        (if deleted then members.erase node else members.insert node member).size
    · rw [if_pos hlimit] at hdecode
      cases hdecode
    · rw [if_neg hlimit] at hdecode
      cases hdecode
      exact .member node member (String.append_assoc ..).symm hmember
  next node _ hnode =>
    obtain rfl := stripPrefix_eq_some.mp hnode
    split at hdecode
    · cases hdecode
    next =>
    split at hdecode
    · cases hdecode
    next =>
    cases hdecode
    exact .epoch node (String.append_assoc ..).symm
  next => cases hdecode

/-! ### One record -/

section Record

variable {key : String} {item : Item V} {deleted formatValid formatValid' : Bool}
variable {members members' : Members} {lookup : String → Option (Item V)}

theorem Decodes.update_of_ne (hlookup : cfg.Decodes lookup members)
    (hkey : ∀ node, key ≠ memberKey cfg.pre node) (value : Option (Item V)) :
    cfg.Decodes (Function.update lookup key value) members := by
  intro node
  rw [Function.update_of_ne (hkey node).symm]
  exact hlookup node

theorem FormatHolds.update_of_ne (hlookup : cfg.FormatHolds lookup)
    (hkey : key ≠ formatKey cfg.pre) (value : Option (Item V)) :
    cfg.FormatHolds (Function.update lookup key value) := by
  obtain ⟨item, hitem, hmatches⟩ := hlookup
  refine ⟨item, ?_, hmatches⟩
  rw [Function.update_of_ne hkey.symm]
  exact hitem

theorem Decodes.accepts (hlookup : cfg.Decodes lookup members)
    (haccepts : cfg.Accepts key item deleted members formatValid members' formatValid') :
    cfg.Decodes (Function.update lookup key (if deleted then none else some item)) members' := by
  cases haccepts with
  | format hkey => exact hlookup.update_of_ne (fun node => hkey ▸ formatKey_ne_memberKey) _
  | epoch node hkey => exact hlookup.update_of_ne (fun other => hkey ▸ epochKey_ne_memberKey) _
  | member node member hkey hmember =>
    subst hkey
    intro other
    by_cases heq : other = node
    · subst heq
      rw [Function.update_self]
      cases deleted with
      | true => simp
      | false => simp [hmember]
    · rw [Function.update_of_ne (mt memberKey_inj.mp heq), hlookup other]
      have hne : node ≠ other := Ne.symm heq
      cases deleted with
      | true => simp [ExtTreeMap.getElem?_erase, hne]
      | false => simp [ExtTreeMap.getElem?_insert, hne]

theorem FormatHolds.accepts (hlookup : formatValid = true → cfg.FormatHolds lookup)
    (haccepts : cfg.Accepts key item deleted members formatValid members' formatValid')
    (hvalid : formatValid' = true) :
    cfg.FormatHolds (Function.update lookup key (if deleted then none else some item)) := by
  cases haccepts with
  | format hkey hdeleted hmatches =>
    subst hkey hdeleted
    exact ⟨item, by simp, hmatches⟩
  | member node _ hkey =>
    exact (hlookup hvalid).update_of_ne (hkey ▸ formatKey_ne_memberKey.symm) _
  | epoch node hkey =>
    exact (hlookup hvalid).update_of_ne (hkey ▸ formatKey_ne_epochKey.symm) _

end Record

theorem Agrees.matching {lookup : String → Option (Item V)} (hagrees : cfg.Agrees lookup members) :
    cfg.Matching lookup := by
  have hown := hagrees.decodes cfg.registration.nodeId
  rw [hagrees.registration] at hown
  exact ⟨hown, hagrees.format⟩

theorem Agrees.congr {lookup lookup' : String → Option (Item V)}
    (hagrees : cfg.Agrees lookup members)
    (hlookup : ∀ key, cfg.inPrefix key = true → lookup' key = lookup key) :
    cfg.Agrees lookup' members where
  decodes node := by
    rw [hlookup _ (inPrefix_memberKey node)]
    exact hagrees.decodes node
  format := by
    obtain ⟨item, hitem, hmatches⟩ := hagrees.format
    exact ⟨item, (hlookup _ inPrefix_formatKey).trans hitem, hmatches⟩
  registration := hagrees.registration

/-! ### Pages and responses -/

variable {lookup : String → Option (Item V)}

theorem Decodes.decodePage {page : List (String × Item V)} {formatSeen : Bool}
    (hlookup : cfg.Decodes lookup members) (hformat : formatSeen = true → cfg.FormatHolds lookup)
    {result : Members × Bool} (hpage : cfg.decodePage members formatSeen page = .ok result) :
    cfg.Decodes (page.foldl enter lookup) result.1 ∧
      (result.2 = true → cfg.FormatHolds (page.foldl enter lookup)) := by
  induction page generalizing lookup members formatSeen with
  | nil =>
    cases hpage
    exact ⟨hlookup, hformat⟩
  | cons entry page ih =>
    rw [FollowConfig.decodePage] at hpage
    split at hpage
    · cases hpage
    next members formatSeen hdecode =>
    have haccepts := accepts_of_decode hdecode
    exact ih (hlookup.accepts haccepts) (FormatHolds.accepts hformat haccepts) hpage

theorem applyTo_of_observed {event : KvEvent String V} {item : Item V} {deleted : Bool}
    (hobserved : observed event = some (item, deleted)) (lookup : String → Option (Item V)) :
    event.applyTo lookup =
      Function.update lookup event.key (if deleted then none else some item) := by
  unfold observed at hobserved
  rw [KvEvent.applyTo]
  split at hobserved
  next current hcurrent =>
    cases hobserved
    rw [hcurrent]
    rfl
  next hcurrent =>
    obtain ⟨previous, -, hpair⟩ := Option.map_eq_some_iff.mp hobserved
    cases hpair
    rw [hcurrent]
    rfl

theorem Agrees.applyEvents {events : List (KvEvent String V)} {applied through through' : Nat}
    {members' : Members} (hagrees : cfg.Agrees lookup members)
    (hthrough : cfg.applyEvents applied members through true events = .through members' through') :
    cfg.Agrees ((events.filter fun event => applied < event.revision).foldl KvEvent.applyTo lookup)
        members' ∧
      through ≤ through' ∧
      (∀ event ∈ events, applied < event.revision → event.revision ≤ through' ∧
        ∃ before, cfg.Matching (event.applyTo before)) ∧
      (through' = through ∨ ∃ event ∈ events, event.revision = through') := by
  induction events generalizing lookup members through with
  | nil =>
    obtain ⟨rfl, rfl⟩ := EventsOutcome.through.inj hthrough
    exact ⟨hagrees, le_rfl, by simp, .inl rfl⟩
  | cons event events ih =>
    rw [FollowConfig.applyEvents] at hthrough
    split at hthrough
    next hold =>
      obtain ⟨hmoved, hle, hbound, hlast⟩ := ih hagrees hthrough
      rw [filter_cons_of_neg (by simpa using hold)]
      refine ⟨hmoved, hle, ?_, hlast.imp_right ?_⟩
      · intro other hother hafter
        obtain rfl | hrest := List.mem_cons.mp hother
        · omega
        · exact hbound other hrest hafter
      · rintro ⟨other, hother, hrevision⟩
        exact ⟨other, mem_cons_of_mem _ hother, hrevision⟩
    next hnew =>
    split at hthrough
    · cases hthrough
    next item deleted hobserved =>
    split at hthrough
    · cases hthrough
    next members formatValid hdecode =>
    split at hthrough
    · cases hthrough
    next hvalid =>
    rw [Bool.or_eq_true, not_or, Bool.not_eq_true', Bool.not_eq_false, decide_eq_true_eq,
      not_not] at hvalid
    obtain ⟨rfl, hregistration⟩ := hvalid
    have haccepts := accepts_of_decode hdecode
    have hstep : cfg.Agrees (event.applyTo lookup) members := by
      rw [applyTo_of_observed hobserved]
      exact ⟨hagrees.decodes.accepts haccepts,
        FormatHolds.accepts (fun _ => hagrees.format) haccepts rfl, hregistration⟩
    obtain ⟨hmoved, hle, hbound, hlast⟩ := ih hstep hthrough
    rw [filter_cons_of_pos (by simpa using hnew), foldl_cons]
    refine ⟨hmoved, by omega, ?_, ?_⟩
    · intro other hother hafter
      obtain rfl | hrest := List.mem_cons.mp hother
      · exact ⟨by omega, lookup, hstep.matching⟩
      · exact hbound other hrest hafter
    · obtain hmax | ⟨other, hother, hrevision⟩ := hlast
      · rcases le_total through event.revision with hle' | hle'
        · exact .inr ⟨event, mem_cons_self, by omega⟩
        · exact .inl (by omega)
      · exact .inr ⟨other, mem_cons_of_mem _ hother, hrevision⟩

theorem Decodes.unique {members' : Members}
    (hmembers : cfg.Decodes lookup members) (hmembers' : cfg.Decodes lookup members') :
    members' = members := by
  apply ExtTreeMap.ext_getElem?
  intro node
  have hsame := (hmembers' node).symm.trans (hmembers node)
  exact Option.map_injective (fun _ _ => Except.ok.inj) hsame

/-! ### The invariant -/

variable (cfg)

structure Attached (history : List (Commit String V)) (members : Members) (applied : Nat) :
    Prop where
  positive : 1 ≤ applied
  bound : applied ≤ history.length + 1
  agrees : cfg.Agrees (lookupAt history applied) members

def Quiet (history : List (Commit String V)) (applied sent : Nat) : Prop :=
  ∀ event ∈ (Kv.empty : Kv String V).changes history, cfg.inPrefix event.key = true →
    applied < event.revision → sent < event.revision

structure Reads (history : List (Commit String V)) (revision : Nat) (after : Option String)
    (members : Members) (formatSeen : Bool) : Prop where
  positive : 1 ≤ revision
  bound : revision ≤ history.length + 1
  pages : ∃ read, rangeAfter cfg.inPrefix (itemsAt history revision) none =
      read ++ rangeAfter cfg.inPrefix (itemsAt history revision) after ∧
    cfg.Decodes (read.foldl enter fun _ => none) members ∧
    (formatSeen = true → cfg.FormatHolds (read.foldl enter fun _ => none))

variable {cfg}

section Coordinator

variable {history : List (Commit String V)} {members : Members}
  {applied : Nat} {after : Option String} {formatSeen : Bool}

theorem Attached.append (hattached : cfg.Attached history members applied)
    (later : List (Commit String V)) : cfg.Attached (history ++ later) members applied where
  positive := hattached.positive
  bound := by
    have hbound := hattached.bound
    rw [length_append]
    omega
  agrees := by
    rw [lookupAt_append hattached.bound]
    exact hattached.agrees

theorem Quiet.append {sent : Nat} (hquiet : cfg.Quiet history applied sent)
    (hsent : sent ≤ history.length + 1) (later : List (Commit String V)) :
    cfg.Quiet (history ++ later) applied sent := by
  intro event hevent hkey hafter
  rw [Kv.changes_append, mem_append] at hevent
  obtain hold | hnew := hevent
  · exact hquiet event hold hkey hafter
  · have hrevision := (Kv.revision_of_mem_changes hnew).1
    rw [Kv.revision_commits] at hrevision
    change 1 + _ < _ at hrevision
    omega

variable {revision : Nat}

theorem Reads.append (hreads : cfg.Reads history revision after members formatSeen)
    (later : List (Commit String V)) :
    cfg.Reads (history ++ later) revision after members formatSeen where
  positive := hreads.positive
  bound := by
    have hbound := hreads.bound
    rw [length_append]
    omega
  pages := by
    have hbound := hreads.bound
    have hitems : itemsAt (history ++ later) revision = itemsAt history revision := by
      rw [itemsAt, itemsAt, take_append_of_le_length (by omega)]
    rw [hitems]
    exact hreads.pages

theorem reads_start (hpositive : 1 ≤ revision)
    (hbound : revision ≤ history.length + 1) : cfg.Reads history revision none ∅ false where
  positive := hpositive
  bound := hbound
  pages := ⟨[], rfl, fun node => by simp, by simp⟩

theorem Reads.page
    (hreads : cfg.Reads history revision after members formatSeen) {limit : Nat}
    {last : String × Item V} {result : Members × Bool}
    (hpage : cfg.decodePage members formatSeen
      ((rangeAfter cfg.inPrefix (itemsAt history revision) after).take limit) = .ok result)
    (hlast : ((rangeAfter cfg.inPrefix (itemsAt history revision) after).take limit).getLast? =
      some last) :
    cfg.Reads history revision (some last.1) result.1 result.2 where
  positive := hreads.positive
  bound := hreads.bound
  pages := by
    obtain ⟨read, hread, hdecodes, hformat⟩ := hreads.pages
    have hrest := rangeAfter_last
      (take_append_drop limit (rangeAfter cfg.inPrefix (itemsAt history revision) after)).symm
      hlast
    have hmoved := hdecodes.decodePage hformat hpage
    rw [← foldl_append] at hmoved
    refine ⟨_, ?_, hmoved⟩
    rw [hrest, append_assoc, take_append_drop]
    exact hread

theorem Reads.decodes (hreads : cfg.Reads history revision after members formatSeen)
    {result : Members × Bool} (hpage : cfg.decodePage members formatSeen
      (rangeAfter cfg.inPrefix (itemsAt history revision) after) = .ok result) :
    cfg.Decodes (lookupAt history revision) result.1 ∧
      (result.2 = true → cfg.FormatHolds (lookupAt history revision)) := by
  obtain ⟨read, hread, hdecodes, hseen⟩ := hreads.pages
  have hmoved := hdecodes.decodePage hseen hpage
  rw [← foldl_append, ← hread] at hmoved
  have hlookup (key : String) (hkey : cfg.inPrefix key = true) : lookupAt history revision key = _ :=
    (foldl_enter_rangeAfter hkey).symm
  refine ⟨fun node => ?_, fun hformat => ?_⟩
  · rw [hlookup _ (inPrefix_memberKey node)]
    exact hmoved.1 node
  · obtain ⟨item, hitem, hmatches⟩ := hmoved.2 hformat
    exact ⟨item, (hlookup _ inPrefix_formatKey).trans hitem, hmatches⟩

theorem Reads.complete
    (hreads : cfg.Reads history revision after members formatSeen) {result : Members × Bool}
    (hpage : cfg.decodePage members formatSeen
      (rangeAfter cfg.inPrefix (itemsAt history revision) after) = .ok result)
    (hformat : result.2 = true)
    (hregistration : result.1[cfg.registration.nodeId]? = some cfg.registration) :
    cfg.Attached history result.1 revision where
  positive := hreads.positive
  bound := hreads.bound
  agrees := ⟨(hreads.decodes hpage).1, (hreads.decodes hpage).2 hformat, hregistration⟩

theorem Agrees.advance {through : Nat} {members' : Members}
    (hattached : cfg.Attached history members applied) (horder : applied ≤ through)
    (hbound : through ≤ history.length + 1)
    (hmoved : cfg.Agrees ((eventsIn cfg.inPrefix history applied through).foldl KvEvent.applyTo
      (lookupAt history applied)) members') :
    cfg.Attached history members' through where
  positive := hattached.positive.trans horder
  bound := hbound
  agrees := by
    apply hmoved.congr
    intro key hkey
    exact (foldl_eventsIn hattached.positive horder hbound hkey).symm

end Coordinator

end FollowConfig

namespace Follower

variable {V : Type} {cfg : FollowConfig V}
  {s : Follower V} {low high : Nat}

theorem mem_sentEvents {event : KvEvent String V} (hevent : event ∈ s.sentEvents cfg low high) :
    low < event.revision ∧ event.revision ≤ high := by
  obtain ⟨made, hmade, rfl⟩ := List.mem_map.mp hevent
  exact (mem_eventsIn.mp hmade).2.2

theorem sentEvents_of_mem {event : KvEvent String V}
    (hevent : event ∈ Kv.empty.changes s.history) (hkey : cfg.inPrefix event.key = true)
    (hlow : low < event.revision) (hhigh : event.revision ≤ high) :
    ∃ sent ∈ s.sentEvents cfg low high, sent.revision = event.revision ∧ sent.key = event.key ∧
      sent.current = event.current :=
  ⟨_, mem_map_of_mem (mem_eventsIn.mpr ⟨hevent, hkey, hlow, hhigh⟩), rfl, rfl, rfl⟩

theorem foldl_sentEvents (s : Follower V) (applied low high : Nat)
    (lookup : String → Option (Item V)) :
    ((s.sentEvents cfg low high).filter fun event => applied < event.revision).foldl
        KvEvent.applyTo lookup =
      ((eventsIn cfg.inPrefix s.history low high).filter fun event =>
        applied < event.revision).foldl KvEvent.applyTo lookup := by
  rw [sentEvents, filter_map, foldl_map]
  rfl

theorem attached_of_applyEvents {members members' : Members}
    {applied sent through : Nat} (hattached : cfg.Attached s.history members applied)
    (hquiet : cfg.Quiet s.history applied sent) (hlow : low ≤ sent) (hhigh : high ≤ s.revision)
    (hthrough : cfg.applyEvents applied members applied true (s.sentEvents cfg low high) =
      .through members' through) {applied' : Nat}
    (happlied : applied' = if (s.sentEvents cfg low high).isEmpty then max high through
      else through) :
    applied ≤ applied' ∧ cfg.Attached s.history members' applied' ∧
      cfg.Quiet s.history applied' (max sent high) := by
  obtain ⟨hmoved, hle, hbound, hlast⟩ := hattached.agrees.applyEvents hthrough
  have hthroughHigh : through ≤ max applied high := by
    obtain rfl | ⟨event, hevent, rfl⟩ := hlast
    · exact le_max_left _ _
    · exact (mem_sentEvents hevent).2.trans (le_max_right _ _)
  have horder : through ≤ applied' ∧ applied' ≤ max applied high := by
    rw [happlied]
    split
    · exact ⟨le_max_right _ _, max_le (le_max_right _ _) hthroughHigh⟩
    · exact ⟨le_rfl, hthroughHigh⟩
  have hlate : ∀ event ∈ Kv.empty.changes s.history, cfg.inPrefix event.key = true →
      applied < event.revision → event.revision ≤ high → event.revision ≤ through := by
    intro event hevent hkey hafter hbefore
    have hsent := hquiet event hevent hkey hafter
    obtain ⟨copy, hcopy, hrevision, -⟩ := sentEvents_of_mem hevent hkey (hlow.trans_lt hsent) hbefore
    rw [← hrevision] at hafter ⊢
    exact (hbound copy hcopy hafter).1
  have hrevision : s.revision = s.history.length + 1 := rfl
  have hattachedBound := hattached.bound
  refine ⟨by omega, ?_, ?_⟩
  · apply FollowConfig.Agrees.advance hattached (by omega) (by omega)
    have hevents : eventsIn cfg.inPrefix s.history applied applied' =
        (eventsIn cfg.inPrefix s.history low high).filter fun event =>
          applied < event.revision := by
      rw [eventsIn, eventsIn, filter_filter]
      apply filter_congr
      intro event hevent
      cases hkey : cfg.inPrefix event.key with
      | false => simp
      | true =>
        have hsent := hquiet event hevent hkey
        have hthroughBound := hlate event hevent hkey
        simp only [Bool.true_and]
        rw [← Bool.decide_and, ← Bool.decide_and, ← Bool.decide_and, decide_eq_decide]
        omega
    rw [hevents, ← foldl_sentEvents]
    exact hmoved
  · intro event hevent hkey hafter
    have hsent := hquiet event hevent hkey (by omega)
    have hthroughBound := hlate event hevent hkey (by omega)
    omega

end Follower

/-! ### Runs -/

def FollowPhase.attached : FollowPhase → Option (Members × Nat)
  | .snapshot members applied => some (members, applied)
  | .following members applied _ _ => some (members, applied)
  | _ => none

def FollowPhase.Faithful {V : Type} (cfg : FollowConfig V) (history : List (Commit String V)) :
    FollowPhase → Prop
  | .reading revision after members formatSeen =>
    revision = 0 ∧ after = none ∧ members = ∅ ∧ formatSeen = false ∨
      cfg.Reads history revision after members formatSeen
  | .snapshot members applied => cfg.Attached history members applied
  | .following members applied sent _ =>
    cfg.Attached history members applied ∧ sent ≤ history.length + 1 ∧
      cfg.Quiet history applied sent
  | _ => True

namespace Follower

variable {V : Type} {cfg : FollowConfig V}

variable (cfg) in
/-- Every install was of the members of its revision, and a view that is ready shows the snapshot
that the task has, which is the last one installed. -/
structure Faithful (s : Follower V) : Prop where
  installed : ∀ install ∈ s.installs, cfg.Attached s.history install.members install.revision ∧
    install.view.members = memberMap (install.members.toList.map fun entry => entry.2.owner)
  phase : s.phase.Faithful cfg s.history
  ready : s.view.ready = true → ∃ install, s.installs.getLast? = some install ∧
    s.phase.attached = some (install.members, install.revision) ∧
    s.view.members = install.view.members

section Updates

variable {s : Follower V}

section

variable (hs : s.Faithful cfg)
  {phase : FollowPhase}

include hs

theorem Faithful.following {members : Members} {applied sent : Nat} {awaiting : Bool}
    (hphase : s.phase = .following members applied sent awaiting) :
    cfg.Attached s.history members applied ∧ sent ≤ s.history.length + 1 ∧
      cfg.Quiet s.history applied sent := by
  have hfaithful := hs.phase
  rwa [hphase] at hfaithful

theorem Faithful.not_ready (hphase : s.phase.attached = none) : s.view.ready = false := by
  rw [← Bool.not_eq_true]
  intro hready
  obtain ⟨install, -, hattached, -⟩ := hs.ready hready
  rw [hphase] at hattached
  cases hattached

theorem Faithful.setView {view : MembershipView}
    (hready : view.ready = s.view.ready) (hmembers : view.members = s.view.members) :
    { s with view := view }.Faithful cfg where
  installed := hs.installed
  phase := hs.phase
  ready hview := by
    obtain ⟨install, hlast, hattached, hinstall⟩ := hs.ready (hready ▸ hview)
    exact ⟨install, hlast, hattached, hmembers.trans hinstall⟩

theorem Faithful.detach {view : MembershipView}
    (hready : view.ready = false) (hphase : phase.Faithful cfg s.history) :
    { s with view := view, phase := phase }.Faithful cfg where
  installed := hs.installed
  phase := hphase
  ready hview := by
    rw [hready] at hview
    cases hview

theorem Faithful.rebuild : s.rebuild.Faithful cfg := hs.detach rfl trivial

theorem Faithful.finish : s.finish.Faithful cfg := hs.detach rfl trivial

theorem Faithful.setPhase
    (hphase : phase.Faithful cfg s.history) (hattached : phase.attached = s.phase.attached) :
    { s with phase := phase }.Faithful cfg where
  installed := hs.installed
  phase := hphase
  ready hview := by
    obtain ⟨install, hlast, hinstall, hmembers⟩ := hs.ready hview
    exact ⟨install, hlast, hattached.trans hinstall, hmembers⟩

theorem Faithful.installMembers {members : Members} {revision : Nat}
    (hattached : cfg.Attached s.history members revision) (hphase : phase.Faithful cfg s.history)
    (hsnapshot : phase.attached = some (members, revision)) :
    { s.installMembers revision members with phase := phase }.Faithful cfg where
  installed install hinstall := by
    obtain hold | hnew := List.mem_append.mp hinstall
    · exact hs.installed install hold
    · rw [List.mem_singleton.mp hnew]
      refine ⟨hattached, ?_⟩
      simp only [replaceMembers, map_map]
      rfl
  phase := hphase
  ready _ := ⟨_, getLast?_concat, hsnapshot, rfl⟩

theorem Faithful.commit (made : Commit String V) :
    { s with history := s.history ++ [made] }.Faithful cfg where
  installed install hinstall :=
    ⟨(hs.installed install hinstall).1.append _, (hs.installed install hinstall).2⟩
  phase := by
    have hphase := hs.phase
    cases hcase : s.phase with
    | detached => trivial
    | stopped => trivial
    | reading revision after members formatSeen =>
      rw [hcase] at hphase
      exact hphase.imp_right fun hreads => hreads.append _
    | snapshot members applied =>
      rw [hcase] at hphase
      exact FollowConfig.Attached.append hphase _
    | following members applied sent awaiting =>
      rw [hcase] at hphase
      obtain ⟨hattached, hsent, hquiet⟩ := hphase
      refine ⟨hattached.append _, ?_, hquiet.append hsent _⟩
      rw [length_append]
      omega
  ready := hs.ready

end

end Updates

section Steps

variable {s s' : Follower V}
  {members : Members}

theorem Faithful.completeSnapshot (hs : s.Faithful cfg) (hready : s.view.ready = false)
    {revision : Nat} {after : Option String} {formatSeen : Bool}
    (hreads : cfg.Reads s.history revision after members formatSeen) {result : Members × Bool}
    (hpage : cfg.decodePage members formatSeen
      (rangeAfter cfg.inPrefix (itemsAt s.history revision) after) = .ok result) :
    (s.completeSnapshot cfg revision result.1 result.2).Faithful cfg := by
  unfold Follower.completeSnapshot
  split
  next => exact hs.detach hready trivial
  next hvalid =>
    rw [Bool.or_eq_true, not_or, Bool.not_eq_true', Bool.not_eq_false, decide_eq_true_eq,
      not_not] at hvalid
    have hattached := hreads.complete hpage hvalid.1 hvalid.2
    exact hs.installMembers hattached hattached rfl

theorem Faithful.readPage (hs : s.Faithful cfg) (hready : s.view.ready = false)
    (cluster : Option Nat) {revision : Nat} {after : Option String}
    {formatSeen : Bool} (hreads : cfg.Reads s.history revision after members formatSeen) :
    (s.readPage cfg cluster revision after members formatSeen).Faithful cfg := by
  unfold Follower.readPage
  split
  · exact hs.detach hready trivial
  split
  · exact hs.detach hready trivial
  dsimp only
  split
  · exact hs.detach hready trivial
  next members' formatSeen' hpage =>
  split
  next hfew =>
    rw [take_of_length_le hfew] at hpage
    exact hs.completeSnapshot hready hreads hpage
  next =>
  split
  · exact hs.detach hready trivial
  next last hlast => exact hs.detach hready (.inr (hreads.page hpage hlast))

theorem Faithful.respond (hs : s.Faithful cfg) {applied sent sent' : Nat}
    {awaiting : Bool} (hphase : s.phase = .following members applied sent awaiting)
    {response : WatchResponse V} (hsent : sent' ≤ s.history.length + 1)
    (hcreated : response.created = true → cfg.Quiet s.history applied sent')
    (hevents : response.canceled = false → response.created = false →
      ∀ members' through applied',
      cfg.applyEvents applied members applied true response.events = .through members' through →
      applied' = (if response.events.isEmpty then max response.revision through else through) →
      applied ≤ applied' ∧ cfg.Attached s.history members' applied' ∧
        cfg.Quiet s.history applied' sent') :
    (s.respond cfg members applied sent' response).Faithful cfg := by
  have hfollowing := hs.following hphase
  have hattached : s.phase.attached = some (members, applied) := by rw [hphase]; rfl
  unfold Follower.respond
  split
  · exact hs.rebuild
  split
  · exact (hs.setView rfl rfl : { s with view := s.view.fence }.Faithful cfg).finish
  split
  · exact hs.rebuild
  next hcanceled =>
  rw [Bool.or_eq_true, not_or, Bool.not_eq_true] at hcanceled
  split
  next hmade =>
    exact hs.setPhase ⟨hfollowing.1, hsent, hcreated hmade⟩ hattached.symm
  next hmade =>
  split
  · exact hs.rebuild
  · exact (hs.setView rfl rfl : { s with view := s.view.fence }.Faithful cfg).finish
  next members' through hthrough =>
  obtain ⟨horder, hmoved, hquiet⟩ :=
    hevents hcanceled.1 (by simpa using hmade) members' through _ hthrough rfl
  dsimp only
  generalize (if response.events.isEmpty then max response.revision through else through) =
    applied' at horder hmoved hquiet ⊢
  split
  next =>
    apply hs.installMembers hmoved
    · exact ⟨hmoved, hsent, hquiet⟩
    · rfl
  next hsame =>
    -- nothing was applied, so the loop has left the members as they were
    have heq := Nat.le_antisymm (Nat.le_of_not_lt hsame) horder
    rw [heq] at hmoved hquiet
    obtain rfl := hfollowing.1.agrees.decodes.unique hmoved.agrees.decodes
    exact hs.setPhase ⟨hmoved, hsent, hquiet⟩ hattached.symm

theorem Faithful.reads (hs : s.Faithful cfg) {revision fixed : Nat} {after : Option String}
    {formatSeen : Bool} (hphase : s.phase = .reading revision after members formatSeen)
    (hfixed : fixed = if revision = 0 then s.revision else revision) :
    cfg.Reads s.history fixed after members formatSeen := by
  have hreads := hs.phase
  rw [hphase] at hreads
  subst hfixed
  obtain ⟨rfl, rfl, rfl, rfl⟩ | hreads := hreads
  · rw [if_pos rfl]
    exact FollowConfig.reads_start (Nat.le_add_left ..) le_rfl
  · rw [if_neg (Nat.pos_iff_ne_zero.mp hreads.positive)]
    exact hreads

theorem Faithful.next (hs : s.Faithful cfg) {step : FollowStep V}
    (hnext : s.next cfg step = some s') : s'.Faithful cfg := by
  cases step <;> rw [Follower.next] at hnext
  case commit made =>
    cases hnext
    exact hs.commit made
  case compact revision =>
    split at hnext
    · cases hnext
      exact ⟨hs.installed, hs.phase, hs.ready⟩
    · cases hnext
  case renew now sentAt ttl =>
    cases hnext
    unfold renew
    dsimp only
    split
    · exact hs.setView rfl rfl
    · exact hs.setView rfl rfl
  case fence =>
    cases hnext
    exact hs.setView rfl rfl
  case stop =>
    cases hnext
    exact hs.finish
  case loop now =>
    split at hnext
    next hphase =>
      split at hnext
      · cases hnext
        exact hs.finish
      split at hnext
      · cases hnext
        exact hs.detach rfl hs.phase
      · cases hnext
        exact hs.detach rfl (.inl ⟨rfl, rfl, rfl, rfl⟩)
    next members applied hphase =>
      have hattached := hs.phase
      rw [hphase] at hattached
      split at hnext
      · cases hnext
        exact hs.finish
      · cases hnext
        apply hs.setPhase
        · exact ⟨hattached, FollowConfig.Attached.bound hattached, fun _ _ _ hafter => hafter⟩
        · rw [hphase]
          rfl
    next => cases hnext
  case page cluster =>
    split at hnext
    next revision after members formatSeen hphase =>
      have hready : s.view.ready = false := hs.not_ready (by rw [hphase]; rfl)
      have hreads := hs.reads hphase rfl
      dsimp only at hnext
      generalize (if revision = 0 then s.revision else revision) = fixed at hreads hnext
      split at hnext
      · cases hnext
        exact hs.readPage hready cluster hreads
      · cases hnext
    next => cases hnext
  case readFails =>
    split at hnext
    next hphase =>
      cases hnext
      exact hs.detach (hs.not_ready (by rw [hphase]; rfl)) trivial
    next => cases hnext
  case check now =>
    split at hnext
    next members applied sent hphase =>
      split at hnext
      · cases hnext
        exact hs.setPhase (hs.following hphase) (by rw [hphase]; rfl)
      · cases hnext
        exact hs.finish
    next => cases hnext
  case timeout =>
    split at hnext
    next members applied sent hphase =>
      cases hnext
      exact hs.setPhase (hs.following hphase) (by rw [hphase]; rfl)
    next => cases hnext
  case created cluster =>
    split at hnext
    next members applied sent hphase =>
      cases hnext
      obtain ⟨-, hsent, hquiet⟩ := hs.following hphase
      exact hs.respond hphase hsent (fun _ => hquiet) fun _ => nofun
    next => cases hnext
  case canceled cluster compactRevision =>
    split at hnext
    next members applied sent hphase =>
      cases hnext
      exact hs.respond hphase (hs.following hphase).2.1 nofun nofun
    next => cases hnext
  case events cluster low high =>
    split at hnext
    next members applied sent hphase =>
      split at hnext
      next hguard =>
        cases hnext
        obtain ⟨hattached, hsent, hquiet⟩ := hs.following hphase
        refine hs.respond hphase (max_le hsent hguard.2.2) nofun ?_
        intro _ _ members' through applied' hthrough happlied
        exact attached_of_applyEvents hattached hquiet hguard.1 hguard.2.2 hthrough happlied
      next => cases hnext
    next => cases hnext
  case disconnect =>
    split at hnext
    next members applied sent awaiting hphase =>
      cases hnext
      exact hs.setPhase (hs.following hphase).1 (by rw [hphase]; rfl)
    next => cases hnext
  case watchFails =>
    split at hnext
    · cases hnext
      exact hs.rebuild
    · cases hnext

end Steps

end Follower

section Fence

variable {V : Type} {cfg : FollowConfig V} {s : Follower V} {members : Members}

end Fence

end OrbitKV
