import OrbitKV.Cluster.Stream
import OrbitKV.Proof.IndexRecords
import OrbitKV.Proof.InventoryHistory

/-!
# What the source sends

The frames of a session move an ideal receiver between two modes: it follows the source at some
sequence, or it holds a partial copy.
-/

namespace OrbitKV

open Std

variable {after through : Nat} {copy : Residence → Option InventoryRecord}

inductive Mode where
  | live (position : Option Nat)
  | staging (copy : Residence → Option InventoryRecord) (replayed : Nat)

def overlay (records : List InventoryRecord) (copy : Residence → Option InventoryRecord)
    (residence : Residence) : Option InventoryRecord :=
  (residency.lastChange records residence).elim (copy residence) fun record =>
    mergeRecord record (copy residence)

inductive FrameStep (log : List InventoryRecord) (scope : InventoryScope) :
    Mode → Frame → Mode → Prop
  | snapshotBegin {position : Option Nat} {snapshotId viewId : Uuid} {start : Nat} :
      FrameStep log scope (.live position) (.snapshotBegin snapshotId viewId start)
        (.staging (fun _ => none) start)
  | snapshotPage {copy : Residence → Option InventoryRecord} {replayed pageNumber : Nat}
      {snapshotId : Uuid} {records : List InventoryRecord} :
      FrameStep log scope (.staging copy replayed) (.snapshotPage snapshotId pageNumber records)
        (.staging (fun residence => (residency.lastChange records residence).or (copy residence))
          replayed)
  | replay {copy : Residence → Option InventoryRecord} {after through : Nat}
      {records : List InventoryRecord} :
      DeltaRead log scope after through records →
      FrameStep log scope (.staging copy after) (.delta after through records)
        (.staging (overlay records copy) through)
  | snapshotCommit {copy : Residence → Option InventoryRecord} {snapshotId viewId : Uuid}
      {stop pageCount : Nat} {digest : List UInt8} :
      stop ≤ log.length → copy = (scopedResidency scope).stateAt log stop →
      FrameStep log scope (.staging copy stop)
        (.snapshotCommit snapshotId viewId stop digest pageCount) (.live (some stop))
  | delta {after through : Nat} {records : List InventoryRecord} :
      DeltaRead log scope after through records →
      FrameStep log scope (.live (some after)) (.delta after through records)
        (.live (some through))
  | progress {after head : Nat} :
      FrameStep log scope (.live (some after)) (.progress after head) (.live (some after))
  | resetRequired {mode : Mode} {reason : String} :
      FrameStep log scope mode (.resetRequired reason) mode

def frameMachine (log : List InventoryRecord) (scope : InventoryScope) : Machine Mode Frame where
  init mode := mode = .live none
  step := FrameStep log scope

/-! ### The history grows -/

variable {log : List InventoryRecord} {records : List InventoryRecord} {scope : InventoryScope}

theorem DeltaRead.append
    (hread : DeltaRead log scope after through records) (more : List InventoryRecord) :
    DeltaRead (log ++ more) scope after through records where
  after_le := hread.after_le
  through_le := hread.through_le.trans (by simp)
  distinct := hread.distinct
  read residence := by
    rw [hread.read, ChangeKind.window, ChangeKind.window,
      List.take_append_of_le_length hread.through_le]

theorem FrameStep.append
    {mode mode' : Mode} {frame : Frame} (hstep : FrameStep log scope mode frame mode')
    (more : List InventoryRecord) : FrameStep (log ++ more) scope mode frame mode' := by
  cases hstep with
  | snapshotBegin => exact .snapshotBegin
  | snapshotPage => exact .snapshotPage
  | replay hread => exact .replay (hread.append more)
  | snapshotCommit hstop hcopy =>
    refine .snapshotCommit (hstop.trans (by simp)) ?_
    rw [ChangeKind.stateAt_append log more hstop, hcopy]
  | delta hread => exact .delta (hread.append more)
  | progress => exact .progress
  | resetRequired => exact .resetRequired

/-! ### Deltas and copies -/

theorem DeltaRead.overlay_eq
    (hread : DeltaRead log scope after through records) {residence : Residence}
    (hcopy : scope.contains residence.1.ns = false → copy residence = none) :
    overlay records copy residence =
      ((scopedResidency scope).lastChange (ChangeKind.window log after through) residence).elim
        (copy residence) fun record => (scopedResidency scope).merge record (copy residence) := by
  have hlast : (scopedResidency scope).lastChange = residency.lastChange := rfl
  rw [overlay, hread.read, hlast]
  cases hchange : residency.lastChange (ChangeKind.window log after through) residence with
  | none => simp
  | some record =>
    obtain rfl : record.residence = residence := (ChangeKind.lastChange_mem hchange).2
    cases hscope : scope.contains record.residence.1.ns with
    | true =>
      have hkey : scope.contains record.key.ns = true := hscope
      simp only [mergeRecord, ChangeKind.merge, ChangeKind.outcome, scopedResidency, residency,
        hkey, Bool.and_true, if_pos, Option.elim_some]
      rfl
    | false =>
      have hkey : scope.contains record.key.ns = false := hscope
      simp [hcopy hscope, ChangeKind.merge, ChangeKind.outcome, scopedResidency, hkey]

theorem DeltaRead.fuzzy {n : Nat} (hread : DeltaRead log scope after through records)
    (hlog : residency.Numbered log)
    (hcopy : (scopedResidency scope).Fuzzy log (fun _ => True) after n copy) (hn : through ≤ n) :
    (scopedResidency scope).Fuzzy log (fun _ => True) through n (overlay records copy) := by
  have hnumbered : (scopedResidency scope).Numbered log := hlog
  refine hcopy.replay hnumbered hread.after_le hn fun residence _ =>
    hread.overlay_eq fun hscope => ?_
  obtain ⟨s, -, -, hstate⟩ := hcopy residence trivial
  rw [hstate, stateAt_scopedResidency, hscope]
  rfl

theorem DeltaRead.overlay_stateAt
    (hread : DeltaRead log scope after through records) (hlog : residency.Numbered log) :
    overlay records ((scopedResidency scope).stateAt log after) =
      (scopedResidency scope).stateAt log through := by
  have hexact : (scopedResidency scope).Fuzzy log (fun _ => True) after through
      ((scopedResidency scope).stateAt log after) :=
    fun _ _ => ⟨after, le_rfl, hread.after_le, rfl⟩
  funext residence
  exact (hread.fuzzy hlog hexact le_rfl).exact trivial

/-! ### The phases -/

structure Scanning (log : List InventoryRecord) (scope : InventoryScope) (start : Nat)
    (covered : Residence → Prop) (copy : Residence → Option InventoryRecord) : Prop where
  start_le : start ≤ log.length
  fuzzy : (scopedResidency scope).Fuzzy log covered start log.length copy
  ahead : ∀ residence, ¬covered residence → copy residence = none

def At (log : List InventoryRecord) (scope : InventoryScope) : Phase → Mode → Prop
  | .opening resume, mode => mode = .live (resume.map (·.1))
  | .resuming sequence, mode | .checking sequence _, mode | .streaming sequence, mode
  | .idle sequence, mode | .waiting sequence, mode | .publishing sequence _, mode =>
    mode = .live (some sequence)
  | .beginning, mode => ∃ position, mode = .live position
  | .paging snapshot cursor, mode =>
    ∃ copy, mode = .staging copy snapshot.start ∧
      Scanning log scope snapshot.start (Covered cursor) copy
  | .scanned snapshot, mode =>
    ∃ copy, mode = .staging copy snapshot.start ∧
      Scanning log scope snapshot.start (fun _ => True) copy
  | .replaying _ stop after limit, mode =>
    ∃ copy, mode = .staging copy after ∧ after ≤ stop ∧ limit ≤ stop ∧ stop ≤ log.length ∧
      (scopedResidency scope).Fuzzy log (fun _ => True) after stop copy
  | .stopped, _ => True

theorem Scanning.append {start : Nat} {covered : Residence → Prop}
    (hscan : Scanning log scope start covered copy) (more : List InventoryRecord) :
    Scanning (log ++ more) scope start covered copy where
  start_le := hscan.start_le.trans (by simp)
  fuzzy := (hscan.fuzzy.append le_rfl more).mono (by simp)
  ahead := hscan.ahead

theorem At.append {phase : Phase}
    {mode : Mode} (hat : At log scope phase mode) (more : List InventoryRecord) :
    At (log ++ more) scope phase mode := by
  cases phase
  case paging snapshot cursor =>
    obtain ⟨copy, hmode, hscan⟩ := hat
    exact ⟨copy, hmode, hscan.append more⟩
  case scanned snapshot =>
    obtain ⟨copy, hmode, hscan⟩ := hat
    exact ⟨copy, hmode, hscan.append more⟩
  case replaying snapshot stop after limit =>
    obtain ⟨copy, hmode, hafter, hlimit, hstop, hfuzzy⟩ := hat
    exact ⟨copy, hmode, hafter, hlimit, hstop.trans (by simp), hfuzzy.append hstop more⟩
  all_goals exact hat

theorem Scanning.page {start : Nat} {cursor : Option Residence}
    (hscan : Scanning log scope start (Covered cursor) copy) {page : InventoryPage}
    (hpage : PageRead log scope cursor page) :
    Scanning log scope start page.Covers
      fun residence => (residency.lastChange page.records residence).or (copy residence) := by
  have hunread : ∀ residence, Covered cursor residence ∨ ¬page.Covers residence →
      residency.lastChange page.records residence = none := by
    intro residence hout
    cases hlast : residency.lastChange page.records residence with
    | none => rfl
    | some record =>
      obtain ⟨-, hahead, hcovers⟩ := (hpage.read residence record).mp hlast
      exact (hout.elim hahead (· hcovers)).elim
  refine ⟨hscan.start_le, ?_, ?_⟩
  · refine hscan.fuzzy.scan hscan.start_le (fun residence hold => ?_) fun residence hnew hold => ?_
    · rw [hunread residence (.inl hold), Option.none_or]
    · rw [hscan.ahead residence hold, Option.or_none]
      refine Option.ext fun record => ?_
      rw [hpage.read]
      exact and_iff_left ⟨hold, hnew⟩
  · intro residence hout
    rw [hunread residence (.inr hout), Option.none_or]
    exact hscan.ahead residence fun hold => hout (hpage.covers residence hold)

/-! ### Steps of the source -/

section SourceSteps

variable {wire : Wire} {log : List InventoryRecord} {scope : InventoryScope}
  {mode : Mode} {phase : Phase}

def Justified (log : List InventoryRecord) (scope : InventoryScope) (mode : Mode)
    (result : Phase × List Frame) : Prop :=
  ∃ mode', (frameMachine log scope).Run mode result.2 mode' ∧ At log scope result.1 mode'

theorem justified_silent (hat : At log scope phase mode) : Justified log scope mode (phase, []) :=
  ⟨mode, .nil mode, hat⟩

theorem justified_send {mode' : Mode} {frame : Frame}
    (hframe : FrameStep log scope mode frame mode') (hat : At log scope phase mode') :
    Justified log scope mode (send wire frame phase) := by
  unfold send
  split
  · exact ⟨mode', .single hframe, hat⟩
  · exact justified_silent trivial

def DeltaAttempt.Sound (log : List InventoryRecord) (scope : InventoryScope) (after limit : Nat) :
    DeltaAttempt → Prop
  | .retry limit' => limit' ≤ limit
  | .done delta => delta.through ≤ limit ∧ DeltaRead log scope after delta.through delta.records
  | .failed _ => True

theorem Tracks.boundedDeltaStep {inventory : Inventory} {past : List RecordMap}
    (htracks : Tracks log inventory past) (after limit : Nat) :
    (boundedDeltaStep wire inventory after limit scope).1.Sound log scope after limit ∧
      Tracks log (boundedDeltaStep wire inventory after limit scope).2 past := by
  have hread := htracks.of_coalescedChangesScoped after limit scope
  unfold OrbitKV.boundedDeltaStep OrbitKV.boundedDeltaAttempt
  split
  · next hresult =>
    rw [hresult] at hread
    split
    · exact ⟨by simp only [DeltaAttempt.Sound]; omega, hread⟩
    · exact ⟨trivial, hread⟩
  next delta inventory' hresult =>
  obtain ⟨hlimit, hdelta⟩ := htracks.coalescedChangesScoped hresult
  have hafter := hdelta.after_le
  rw [hresult] at hread
  split
  · exact ⟨⟨hlimit, hdelta⟩, hread⟩
  split
  · exact ⟨trivial, hread⟩
  · exact ⟨by simp only [DeltaAttempt.Sound]; omega, hread⟩

theorem justified_deltaStep {after limit : Nat} {attempt : DeltaAttempt}
    (hattempt : attempt.Sound log scope after limit) {retry : Nat → Phase}
    {sent : Frame → Nat → Phase} (reason : String)
    (hretry : ∀ limit' ≤ limit, At log scope (retry limit') mode)
    (hsent : ∀ through records, through ≤ limit → DeltaRead log scope after through records →
      ∃ mode', FrameStep log scope mode (.delta after through records) mode' ∧
        At log scope (sent (.delta after through records) through) mode') :
    Justified log scope mode (deltaStep wire after attempt retry sent reason) := by
  unfold deltaStep
  split
  · next limit' => exact justified_silent (hretry limit' hattempt)
  · exact justified_send .resetRequired trivial
  · exact justified_silent trivial
  · next delta =>
    obtain ⟨hlimit, hread⟩ := hattempt
    obtain ⟨mode', hframe, hat⟩ := hsent _ _ hlimit hread
    exact justified_send hframe hat

theorem justified_pageStep {snapshot : Snapshot} {cursor : Option Residence} {page : InventoryPage}
    {copy : Residence → Option InventoryRecord}
    (hscan : Scanning log scope snapshot.start (Covered cursor) copy)
    (hpage : PageRead log scope cursor page) :
    Justified log scope (.staging copy snapshot.start) (pageStep wire snapshot page) := by
  have hafter : ∀ snapshot' : Snapshot, snapshot'.start = snapshot.start →
      At log scope (afterPage snapshot' page) (.staging
        (fun residence => (residency.lastChange page.records residence).or (copy residence))
        snapshot.start) := by
    intro snapshot' hstart
    have hnext := hscan.page hpage
    unfold afterPage
    split
    · next hcomplete =>
      have hall : page.Covers = fun _ => True := by
        funext residence
        exact propext ⟨fun _ => trivial, fun _ => .inl hcomplete⟩
      rw [hall] at hnext
      exact ⟨_, by rw [hstart], by rwa [hstart]⟩
    · next hmore =>
      have hcursor : page.Covers = Covered page.next := by
        funext residence
        exact propext (or_iff_right hmore)
      rw [hcursor] at hnext
      exact ⟨_, by rw [hstart], by rwa [hstart]⟩
  unfold pageStep
  split
  · next hempty =>
    refine justified_silent ?_
    have hsame := hafter snapshot rfl
    simpa [hempty, ChangeKind.lastChange] using hsame
  · simp only
    split
    · exact justified_silent trivial
    · exact justified_send .snapshotPage (hafter _ rfl)

theorem justified_sourceStep {inventory : Inventory} {past : List RecordMap}
    (htracks : Tracks log inventory past)
    (hat : At log scope phase mode) (ids : Uuid × Uuid) (timer : Bool) :
    Justified log scope mode (sourceStep wire scope ids timer inventory phase).1 ∧
      Tracks log (sourceStep wire scope ids timer inventory phase).2 past := by
  cases phase with
  | opening resume =>
    obtain rfl : mode = .live (resume.map (·.1)) := hat
    cases resume with
    | none => exact ⟨justified_silent ⟨none, rfl⟩, htracks⟩
    | some resume =>
      refine ⟨justified_silent ?_, htracks⟩
      split
      · rfl
      · exact ⟨_, rfl⟩
  | resuming sequence => exact ⟨justified_silent hat, htracks⟩
  | checking sequence head =>
    have hread := htracks.of_coalescedChangesScoped sequence head scope
    rw [sourceStep]
    split
    · next hresult =>
      rw [hresult] at hread
      exact ⟨justified_silent hat, hread⟩
    · next hresult =>
      rw [hresult] at hread
      exact ⟨justified_send .resetRequired trivial, hread⟩
    · next hresult =>
      rw [hresult] at hread
      exact ⟨justified_silent trivial, hread⟩
  | beginning =>
    obtain ⟨position, rfl⟩ := hat
    refine ⟨justified_send .snapshotBegin ⟨_, rfl, ?_⟩, htracks⟩
    refine ⟨htracks.sequence.le, fun residence hcovered => ?_, fun _ _ => rfl⟩
    obtain ⟨last, hlast, -⟩ := hcovered
    cases hlast
  | paging snapshot cursor =>
    obtain ⟨copy, rfl, hscan⟩ := hat
    have hread := htracks.of_scopedPage cursor scope
    rw [sourceStep]
    split
    · next hresult =>
      rw [hresult] at hread
      exact ⟨justified_silent trivial, hread⟩
    · next page inventory' hresult =>
      rw [hresult] at hread
      exact ⟨justified_pageStep hscan (htracks.scopedPage hresult), hread⟩
  | scanned snapshot =>
    obtain ⟨copy, rfl, hscan⟩ := hat
    refine ⟨justified_silent ⟨copy, rfl, ?_, le_rfl, htracks.sequence.le, ?_⟩, htracks⟩
    · rw [htracks.sequence]
      exact hscan.start_le
    · rw [htracks.sequence]
      exact hscan.fuzzy
  | replaying snapshot stop after limit =>
    obtain ⟨copy, rfl, hafter, hlimit, hstop, hfuzzy⟩ := hat
    rw [sourceStep]
    split
    · obtain ⟨hattempt, hread⟩ := htracks.boundedDeltaStep after limit
      refine ⟨justified_deltaStep hattempt _ (fun limit' hle => ?_)
        fun through records hle hdelta => ?_, hread⟩
      · exact ⟨copy, rfl, hafter, hle.trans hlimit, hstop, hfuzzy⟩
      · exact ⟨_, .replay hdelta, _, rfl, hle.trans hlimit, le_rfl, hstop,
          hdelta.fuzzy htracks.numbered hfuzzy (hle.trans hlimit)⟩
    · obtain rfl : after = stop := by omega
      refine ⟨justified_send (.snapshotCommit hstop ?_) rfl, htracks⟩
      funext residence
      exact hfuzzy.exact trivial
  | streaming after =>
    refine ⟨justified_silent ?_, htracks⟩
    split <;> exact hat
  | idle after =>
    obtain rfl : mode = .live (some after) := hat
    refine ⟨?_, htracks⟩
    rw [sourceStep]
    split
    · exact justified_send .progress rfl
    · exact justified_silent rfl
  | waiting after => exact ⟨justified_silent hat, htracks⟩
  | publishing after limit =>
    obtain rfl : mode = .live (some after) := hat
    obtain ⟨hattempt, hread⟩ := htracks.boundedDeltaStep after limit
    exact ⟨justified_deltaStep hattempt _ (fun _ _ => rfl)
      fun through records _ hdelta => ⟨_, .delta hdelta, rfl⟩, hread⟩
  | stopped => exact ⟨justified_silent trivial, htracks⟩

end SourceSteps

end OrbitKV
