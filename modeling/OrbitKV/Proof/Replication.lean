import OrbitKV.Proof.StreamReceiver

/-!
# Convergence of the replication stream

The frames in flight lead from where the receiver stands to where the source is.
-/

namespace OrbitKV

open Std

/-! ### One frame -/

section Receive

variable {log : List InventoryRecord} {source sessionId : Uuid} {wire : Wire} {index : GlobalIndex}
  {now : Nat} {receiver receiver' : Receiver} {received : Received} {index' : GlobalIndex}
  {mode : Mode}

theorem outcome_failed {scope : InventoryScope} (error : String)
    (hfaithful : Faithful log scope source index'.view) (hscope : index'.scope = scope) :
    Outcome log source scope mode (.failed error) receiver index' where
  scope_eq := hscope
  faithful := hfaithful
  follows hgoes := absurd rfl (hgoes error)
  watermark := by simp

section

variable (hfaithful : Faithful log index.scope source index.view)

include hfaithful

theorem outcome_snapshotBegin
    {snapshotId viewId : Uuid} {start : Nat}
    (hreceive : receive wire index now source sessionId receiver
      (.snapshotBegin snapshotId viewId start) = (received, receiver', index')) :
    Outcome log source index.scope (.staging (fun _ => none) start) received receiver' index' := by
  delta receive at hreceive
  dsimp only at hreceive
  split at hreceive
  · next error view hbegin =>
    cases hreceive
    obtain ⟨hshown, -, -⟩ := beginSnapshot_cases source _ _ _ _ _ _ _ hbegin
    exact outcome_failed error (hfaithful.of_shown hshown) rfl
  · next view hbegin =>
    cases hreceive
    obtain ⟨hshown, -, hstaging⟩ := beginSnapshot_cases source _ _ _ _ _ _ _ hbegin
    have hmark : Spared source view (view.markSyncing source) := spared_markSyncing source
    refine ⟨rfl, (hfaithful.of_shown hshown).of_shown hmark.shown, fun _ => ⟨rfl, ?_⟩, by simp⟩
    intro staging hfound
    obtain rfl := Option.some.inj ((hstaging rfl).symm.trans (hmark.staging staging hfound))
    exact ⟨fun residence => by simp [View.freshStaging], rfl⟩

theorem outcome_snapshotPage
    {copy : Residence → Option InventoryRecord} {replayed pageNumber : Nat} {snapshotId : Uuid}
    {records : List InventoryRecord}
    (hfollows : Follows source index.view receiver (.staging copy replayed))
    (hreceive : receive wire index now source sessionId receiver
      (.snapshotPage snapshotId pageNumber records) = (received, receiver', index')) :
    Outcome log source index.scope
      (.staging (fun residence => (residency.lastChange records residence).or (copy residence))
        replayed) received receiver' index' := by
  delta receive at hreceive
  dsimp only at hreceive
  split at hreceive
  · cases hreceive
    exact outcome_failed _ hfaithful rfl
  split at hreceive
  · cases hreceive
    exact outcome_failed _ hfaithful rfl
  have howners : ∀ {result : Except String Unit} {view : View},
      index.view.applySnapshotPage index.scope index.byteLimit source sessionId snapshotId
        pageNumber records = (result, view) → Faithful log index.scope source view := by
    intro result view hpage
    obtain ⟨-, rfl⟩ | ⟨_, _, _, _, -, -, howners, -⟩ :=
      applySnapshotPage_cases _ _ _ _ _ _ _ _ hpage
    · exact hfaithful
    · exact hfaithful.of_shown fun shown hshown => by rwa [View.shown, howners] at hshown
  split at hreceive
  · next error view hpage =>
    cases hreceive
    exact outcome_failed error (howners hpage) rfl
  next view hpage =>
  split at hreceive
  · cases hreceive
    exact outcome_failed _ (howners hpage) rfl
  cases hreceive
  refine ⟨rfl, howners hpage, fun _ => ⟨hfollows.1, ?_⟩, by simp⟩
  obtain ⟨hnot, -⟩ | ⟨staging, staged, bytes, updates, hstaging, hvalid, -, hstaged, hrecords,
    hreplay⟩ := applySnapshotPage_cases _ _ _ _ _ _ _ _ hpage
  · exact absurd rfl hnot
  intro found hfound
  rw [hstaged, ExtTreeMap.getElem?_insert_self] at hfound
  cases hfound
  obtain ⟨hcopy, hold⟩ := hfollows.2 staging hstaging
  obtain ⟨hmap, hlocated⟩ := validatePage_ok hvalid
  constructor
  · intro residence
    rw [hrecords, getElem?_stagePage fun update hmem => (hlocated update hmem).1, hmap, hcopy]
  · rw [hreplay, replaySequence_stagePage, hold]

theorem outcome_replay
    {copy : Residence → Option InventoryRecord} {after through : Nat}
    {records : List InventoryRecord} (hread : DeltaRead log index.scope after through records)
    (hfollows : Follows source index.view receiver (.staging copy after))
    (hreceive : receive wire index now source sessionId receiver (.delta after through records) =
      (received, receiver', index')) :
    Outcome log source index.scope (.staging (overlay records copy) through) received receiver'
      index' := by
  delta receive at hreceive
  dsimp only at hreceive
  split at hreceive
  · cases hreceive
    exact outcome_failed _ hfaithful rfl
  rw [if_pos hfollows.1] at hreceive
  have howners : ∀ {result : Except String Unit} {view : View},
      index.view.applySnapshotDelta index.scope index.byteLimit source sessionId after through
        records = (result, view) → Faithful log index.scope source view := by
    intro result view hdelta
    obtain ⟨-, rfl⟩ | ⟨_, _, _, -, -, -, howners, -⟩ :=
      applySnapshotDelta_cases _ _ _ _ _ _ _ _ hdelta
    · exact hfaithful
    · exact hfaithful.of_shown fun shown hshown => by rwa [View.shown, howners] at hshown
  split at hreceive
  · next error view hdelta =>
    cases hreceive
    exact outcome_failed error (howners hdelta) rfl
  next view hdelta =>
  split at hreceive
  · cases hreceive
    exact outcome_failed _ (howners hdelta) rfl
  cases hreceive
  refine ⟨rfl, howners hdelta, fun _ => ⟨hfollows.1, ?_⟩, by simp⟩
  obtain ⟨hnot, -⟩ | ⟨staging, staged, latest, hstaging, -, hlatest, -, hstaged, -, hrecords,
    hreplay⟩ := applySnapshotDelta_cases _ _ _ _ _ _ _ _ hdelta
  · exact absurd rfl hnot
  intro found hfound
  obtain rfl := Option.some.inj (hstaged.symm.trans hfound)
  obtain ⟨hcopy, -⟩ := hfollows.2 staging hstaging
  exact ⟨fun residence => by rw [hrecords, hread.getElem?_applyRecords hlatest hcopy], hreplay⟩

theorem outcome_snapshotCommit
    {stop pageCount : Nat} {snapshotId viewId : Uuid} {digest : List UInt8}
    (hstop : stop ≤ log.length)
    (hfollows : Follows source index.view receiver
      (.staging ((scopedResidency index.scope).stateAt log stop) stop))
    (hreceive : receive wire index now source sessionId receiver
      (.snapshotCommit snapshotId viewId stop digest pageCount) = (received, receiver', index')) :
    Outcome log source index.scope (.live (some stop)) received receiver' index' := by
  delta receive at hreceive
  dsimp only at hreceive
  iterate 3
    split at hreceive
    · cases hreceive
      exact outcome_failed _ hfaithful rfl
  split at hreceive
  · next error view hcommit =>
    cases hreceive
    refine outcome_failed error ?_ rfl
    obtain ⟨-, hspared⟩ | ⟨-, -, -, hok, -⟩ := commitSnapshot_cases source _ _ _ _ _ _ _ _ hcommit
    · exact hfaithful.of_shown hspared.shown
    · cases hok
  next id view hcommit =>
  cases hreceive
  obtain ⟨hnot, -⟩ | ⟨staging, hstaging, -, -, howner, -⟩ :=
    commitSnapshot_cases source _ _ _ _ _ _ _ _ hcommit
  · exact absurd rfl (hnot id)
  have hshown : view.shown source = some (staging.viewId, stop, staging.records) := by
    rw [View.shown, howner]
    rfl
  obtain ⟨hcopy, -⟩ := hfollows.2 staging hstaging
  refine ⟨rfl, fun viewId' applied records hfound => ?_, fun _ => ⟨rfl, ?_⟩, ?_⟩
  · obtain ⟨-, rfl, rfl⟩ := by simpa using hshown.symm.trans hfound
    exact ⟨hstop, hcopy⟩
  · intro sequence hsequence viewId' applied records hfound
    obtain ⟨-, rfl, -⟩ := by simpa using hshown.symm.trans hfound
    exact Option.some.inj hsequence
  · rintro through (hthrough | hthrough)
    · obtain rfl := Received.committed.inj hthrough
      exact ⟨_, _, hshown⟩
    · cases hthrough

end

theorem applyDelta_outcome {view view' : View} {scope : InventoryScope}
    (hfaithful : Faithful log scope source view) (hlog : residency.Numbered log)
    {after through byteLimit : Nat} {records : List InventoryRecord}
    (hread : DeltaRead log scope after through records)
    (hposition : ∀ viewId applied records, view.shown source = some (viewId, applied, records) →
      applied = after) {viewId : Uuid} {result : Except String DeltaApply}
    (hdelta : view.applyDelta scope byteLimit source viewId after through records =
      (result, view')) :
    Faithful log scope source view' ∧
      ((∃ done, result = .ok done) → (∀ sequence, result ≠ .ok (.overlap sequence)) →
        ∀ viewId applied records, view'.shown source = some (viewId, applied, records) →
          applied = through) ∧
      (result = .ok .applied → ∃ viewId records,
        view'.shown source = some (viewId, through, records)) := by
  obtain ⟨rfl, hnot, hduplicate⟩ | ⟨ownerView, latest, howner, hactive, happlied, hlatest, -, -, -,
    howners⟩ := applyDelta_cases _ _ _ _ _ _ _ _ hdelta
  · refine ⟨hfaithful, ?_, fun hok => absurd hok hnot⟩
    rintro ⟨done, rfl⟩ hoverlap viewId applied records hshown
    cases done with
    | applied => exact absurd rfl hnot
    | overlap sequence => exact absurd rfl (hoverlap sequence)
    | duplicate =>
      -- a delta already applied is an empty one
      obtain ⟨ownerView, howner, hactive, hle⟩ := hduplicate rfl
      have hold := hposition _ _ _ hshown
      rw [View.shown, howner, Option.bind_some, OwnerView.shown, hactive] at hshown
      obtain ⟨-, rfl, -⟩ := by simpa using hshown
      exact Nat.le_antisymm (hold ▸ hread.after_le) hle
  · have hshown : view'.shown source =
        some (ownerView.viewId, through, applyRecords ownerView.records latest.toList) := by
      rw [View.shown, howners, ExtTreeMap.getElem?_insert_self]
      simp [OwnerView.shown, hactive]
    have hbefore : view.shown source = some (ownerView.viewId, after, ownerView.records) := by
      rw [View.shown, howner]
      simp [OwnerView.shown, hactive, happlied]
    obtain ⟨-, hrecords⟩ := hfaithful _ _ _ hbefore
    refine ⟨fun viewId applied records hfound => ?_, fun _ _ viewId applied records hfound => ?_,
      fun _ => ⟨_, _, hshown⟩⟩
    · obtain ⟨-, rfl, rfl⟩ := by simpa using hshown.symm.trans hfound
      refine ⟨hread.through_le, fun residence => ?_⟩
      rw [hread.getElem?_applyRecords hlatest hrecords, hread.overlay_stateAt hlog]
    · obtain ⟨-, rfl, -⟩ := by simpa using hshown.symm.trans hfound
      rfl

theorem outcome_delta (hfaithful : Faithful log index.scope source index.view)
    (hlog : residency.Numbered log) {after through : Nat} {records : List InventoryRecord}
    (hread : DeltaRead log index.scope after through records)
    (hfollows : Follows source index.view receiver (.live (some after)))
    (hreceive : receive wire index now source sessionId receiver (.delta after through records) =
      (received, receiver', index')) :
    Outcome log source index.scope (.live (some through)) received receiver' index' := by
  delta receive at hreceive
  dsimp only at hreceive
  split at hreceive
  · cases hreceive
    exact outcome_failed _ hfaithful rfl
  rw [if_neg (by simp [hfollows.1])] at hreceive
  split at hreceive
  · cases hreceive
    exact outcome_failed _ hfaithful rfl
  next viewId applied hwatermark =>
  cases hreceive
  rw [receiveDelta]
  generalize hdelta : index.view.applyDelta index.scope index.byteLimit source viewId after through
    records = result
  obtain ⟨result, view⟩ := result
  obtain ⟨hfaithful', hposition, happlied⟩ :=
    applyDelta_outcome hfaithful hlog hread (hfollows.2 after rfl) hdelta
  have hnext : (∃ done, result = .ok done) → (∀ sequence, result ≠ .ok (.overlap sequence)) →
      Follows source view receiver (.live (some through)) := by
    refine fun hok hoverlap => ⟨hfollows.1, ?_⟩
    rintro sequence ⟨⟩
    exact hposition hok hoverlap
  match result with
  | .error error => exact outcome_failed _ hfaithful' rfl
  | .ok .applied =>
    refine ⟨rfl, hfaithful', fun _ => hnext ⟨_, rfl⟩ nofun, ?_⟩
    rintro sequence (⟨⟨⟩⟩ | ⟨⟨⟩⟩)
    exact happlied rfl
  | .ok .duplicate => exact ⟨rfl, hfaithful', fun _ => hnext ⟨_, rfl⟩ nofun, by simp⟩
  | .ok (.overlap sequence) => exact outcome_failed _ hfaithful' rfl

theorem outcome_progress (hfaithful : Faithful log index.scope source index.view)
    {after head : Nat} (hfollows : Follows source index.view receiver (.live (some after)))
    (hreceive : receive wire index now source sessionId receiver (.progress after head) =
      (received, receiver', index')) :
    Outcome log source index.scope (.live (some after)) received receiver' index' := by
  have hcoverage : receiveCoverage index source after = (.accepted, index) := by
    unfold receiveCoverage
    split
    · next viewId applied hwatermark =>
      obtain ⟨⟨viewId', applied', records⟩, hshown, hmark⟩ := Option.map_eq_some_iff.mp
        ((index.view.ownerWatermark_eq source).symm.trans hwatermark)
      obtain ⟨-, rfl⟩ := Prod.mk.inj hmark
      obtain rfl : applied' = after := hfollows.2 after rfl _ _ _ hshown
      rw [if_neg (lt_irrefl _)]
    · rfl
  have haccepted : ∀ index'' : GlobalIndex, index''.scope = index.scope →
      Spared source index.view index''.view →
      Outcome log source index.scope (.live (some after)) .accepted receiver index'' :=
    fun index'' hscope hspared =>
      ⟨hscope, hfaithful.of_shown hspared.shown, fun _ => hfollows.spared hspared, by simp⟩
  delta receive at hreceive
  dsimp only at hreceive
  rw [if_neg (by simp [hfollows.1])] at hreceive
  split at hreceive
  · cases hreceive
    exact outcome_failed _ hfaithful rfl
  rw [hcoverage] at hreceive
  simp only at hreceive
  split at hreceive
  case isFalse =>
    cases hreceive
    exact haccepted index rfl .refl
  cases hreceive
  unfold receiveHead
  split
  case h_2 => exact haccepted index rfl .refl
  next viewId applied hwatermark =>
  split
  case isFalse => exact haccepted index rfl .refl
  have hspared : Spared source index.view (index.view.confirmProgress source viewId applied).2 :=
    spared_confirmProgress source viewId applied
  split
  · next error view hconfirm =>
    rw [hconfirm] at hspared
    exact outcome_failed error (hfaithful.of_shown hspared.shown) rfl
  · next view hconfirm =>
    rw [hconfirm] at hspared
    exact haccepted _ rfl hspared

theorem outcome_receive (hfaithful : Faithful log index.scope source index.view)
    (hlog : residency.Numbered log) {mode' : Mode} {frame : Frame}
    (hframe : FrameStep log index.scope mode frame mode')
    (hfollows : Follows source index.view receiver mode)
    (hreceive : receive wire index now source sessionId receiver frame =
      (received, receiver', index')) :
    Outcome log source index.scope mode' received receiver' index' := by
  cases hframe with
  | snapshotBegin => exact outcome_snapshotBegin hfaithful hreceive
  | snapshotPage => exact outcome_snapshotPage hfaithful hfollows hreceive
  | replay hread => exact outcome_replay hfaithful hread hfollows hreceive
  | snapshotCommit hstop hcopy =>
    subst hcopy
    exact outcome_snapshotCommit hfaithful hstop hfollows hreceive
  | delta hread => exact outcome_delta hfaithful hlog hread hfollows hreceive
  | progress => exact outcome_progress hfaithful hfollows hreceive
  | resetRequired =>
    rw [receive] at hreceive
    cases hreceive
    exact outcome_failed _ hfaithful rfl

end Receive

/-! ### The system -/

/-- A session is on course: the frames in flight lead from the receiver to the source. -/
structure OnCourse (log : List InventoryRecord) (scope : InventoryScope) (source : Uuid)
    (view : View) (session : Session) : Prop where
  course : ∃ received sent, Follows source view session.receiver received ∧
    (frameMachine log scope).Run received session.inFlight sent ∧ At log scope session.phase sent

/-- The invariant of the system, for the history `log` of its inventory. -/
structure Replicates (log : List InventoryRecord) (source : Uuid) (s : Replication) : Prop where
  tracks : Tracks log s.inventory s.past
  faithful : Faithful log s.index.scope source s.index.view
  course : ∀ session, s.session = some session →
    OnCourse log s.index.scope source s.index.view session

section Steps

variable {log : List InventoryRecord} {source : Uuid} {wire : Wire} {s s' : Replication}
  {label : StreamLabel}

theorem replicates_init (hinit : (streamMachine wire source).init s) : Replicates [] source s := by
  obtain ⟨⟨byteLimit, hinventory⟩, hpast, hview, hsession⟩ := hinit
  refine ⟨?_, ?_, fun session hfound => ?_⟩
  · rw [hinventory, hpast]
    exact tracks_new byteLimit
  · intro viewId applied records hshown
    simp [hview, View.shown, View.empty] at hshown
  · rw [hsession] at hfound
    cases hfound

theorem OnCourse.append {scope : InventoryScope} {view : View} {session : Session}
    (hcourse : OnCourse log scope source view session) (more : List InventoryRecord) :
    OnCourse (log ++ more) scope source view session := by
  obtain ⟨received, sent, hfollows, hrun, hat⟩ := hcourse.course
  exact ⟨received, sent, hfollows, hrun.mono fun _ _ _ hstep => FrameStep.append hstep more,
    hat.append more⟩

theorem OnCourse.spared {scope : InventoryScope} {view view' : View} {session : Session}
    (hcourse : OnCourse log scope source view session) (hspared : Spared source view view') :
    OnCourse log scope source view' session := by
  obtain ⟨received, sent, hfollows, hrun, hat⟩ := hcourse.course
  exact ⟨received, sent, hfollows.spared hspared, hrun, hat⟩

theorem deliver_cases {now : Nat} {received : Received}
    (hstep : s.next wire source (.deliver now received) = some s') :
    ∃ session frame frames receiver, s.session = some session ∧
      session.inFlight = frame :: frames ∧
      receive wire s.index now source session.sessionId session.receiver frame =
        (received, receiver, s'.index) ∧
      s'.inventory = s.inventory ∧ s'.past = s.past ∧
      ∀ found, s'.session = some found → (∀ error, received ≠ .failed error) ∧
        found = { session with inFlight := frames, receiver := receiver } := by
  rw [Replication.next] at hstep
  split at hstep
  · cases hstep
  next session hsession =>
  split at hstep
  · cases hstep
  next frame frames hflight =>
  simp only at hstep
  split at hstep
  case isFalse => cases hstep
  next hreceived =>
  cases hstep
  subst hreceived
  refine ⟨session, frame, frames, _, hsession, hflight, rfl, rfl, rfl, fun found hfound => ?_⟩
  simp only at hfound
  split at hfound
  · cases hfound
  · next hgoes => exact ⟨hgoes, (Option.some.inj hfound).symm⟩

theorem Replicates.deliver (hinv : Replicates log source s) {now : Nat} {received : Received}
    (hstep : s.next wire source (.deliver now received) = some s') :
    Replicates log source s' ∧ ∀ through, received = .committed through ∨
      received = .applied through →
        ∃ viewId records, s'.index.view.shown source = some (viewId, through, records) := by
  obtain ⟨session, frame, frames, receiver, hsession, hflight, hreceive, hinventory, hpast, hnext⟩ :=
    deliver_cases hstep
  obtain ⟨mode, sent, hfollows, hrun, hat⟩ := (hinv.course session hsession).course
  rw [hflight] at hrun
  obtain ⟨mode', hframe, hrest⟩ := hrun.uncons
  have houtcome := outcome_receive hinv.faithful hinv.tracks.numbered hframe hfollows hreceive
  refine ⟨⟨?_, ?_, fun found hfound => ?_⟩, houtcome.watermark⟩
  · rw [hinventory, hpast]
    exact hinv.tracks
  · rw [houtcome.scope_eq]
    exact houtcome.faithful
  · obtain ⟨hgoes, rfl⟩ := hnext found hfound
    rw [houtcome.scope_eq]
    exact ⟨mode', sent, houtcome.follows hgoes, hrest, hat⟩

theorem Replicates.step (hinv : Replicates log source s)
    (hstep : s.next wire source label = some s') : ∃ log', Replicates log' source s' := by
  cases label with
  | change key medium metadata =>
    rw [Replication.next] at hstep
    split at hstep
    · cases hstep
    next inventory hchange =>
    cases hstep
    exact ⟨_, hinv.tracks.change hchange, hinv.faithful.append _,
      fun session hsession => (hinv.course session hsession).append _⟩
  | openSession sessionId bootstrap =>
    rw [Replication.next] at hstep
    split at hstep
    · cases hstep
    cases hstep
    refine ⟨log, hinv.tracks, hinv.faithful, ?_⟩
    rintro session ⟨⟩
    refine ⟨.live _, .live _, ⟨rfl, ?_⟩, .nil _, rfl⟩
    intro sequence hsequence viewId applied records hshown
    cases bootstrap with
    | true => simp at hsequence
    | false => simpa [View.ownerWatermark_eq, hshown] using hsequence
  | source ids timer =>
    obtain ⟨session, hsession, rfl⟩ := Option.map_eq_some_iff.mp hstep
    obtain ⟨received, sent, hfollows, hrun, hat⟩ := (hinv.course session hsession).course
    obtain ⟨⟨sent', hrun', hat'⟩, htracks⟩ := justified_sourceStep hinv.tracks hat ids timer
    refine ⟨log, htracks, hinv.faithful, ?_⟩
    rintro found ⟨⟩
    exact ⟨received, sent', hfollows, hrun.append hrun', hat'⟩
  | sourceStops =>
    obtain ⟨session, hsession, rfl⟩ := Option.map_eq_some_iff.mp hstep
    obtain ⟨received, sent, hfollows, hrun, -⟩ := (hinv.course session hsession).course
    refine ⟨log, hinv.tracks, hinv.faithful, ?_⟩
    rintro found ⟨⟩
    exact ⟨received, sent, hfollows, hrun, trivial⟩
  | deliver now received => exact ⟨log, (hinv.deliver hstep).1⟩
  | close =>
    cases hstep
    exact ⟨log, hinv.tracks, hinv.faithful, nofun⟩
  | call now call =>
    rw [Replication.next] at hstep
    split at hstep
    case isFalse => cases hstep
    next hspares =>
    cases hstep
    have hspared := spared_call s.index now hspares
    exact ⟨log, hinv.tracks, hinv.faithful.of_shown hspared.shown,
      fun session hsession => (hinv.course session hsession).spared hspared⟩

theorem exists_replicates (hreach : (streamMachine wire source).Reachable s) :
    ∃ log, Replicates log source s :=
  Machine.Reachable.invariant (I := fun s => ∃ log, Replicates log source s)
    (fun _ hinit => ⟨[], replicates_init hinit⟩) (fun _ _ _ ⟨_, hinv⟩ hstep => hinv.step hstep)
    hreach

/-- **Convergence.** In every run of the system, however the changes of the inventory fall between
the steps of the source and whatever else happens to the index, a commit and an applied delta leave
the index with exactly the in-scope residents the source had at the sequence they report. -/
theorem replication_converges (hreach : (streamMachine wire source).Reachable s) {now : Nat}
    {received : Received} (hstep : (streamMachine wire source).step s (.deliver now received) s')
    {through : Nat} (hdone : received = .committed through ∨ received = .applied through) :
    ∃ (ownerView : OwnerView) (residents : RecordMap),
      s'.index.view.owners[source]? = some ownerView ∧ ownerView.retired = false ∧
      ownerView.appliedSequence = through ∧ s'.past[through]? = some residents ∧
      ownerView.records =
        residents.filter fun residence _ => s'.index.scope.contains residence.1.ns := by
  obtain ⟨log, hinv⟩ := exists_replicates hreach
  obtain ⟨hinv', hwatermark⟩ := hinv.deliver hstep
  obtain ⟨viewId, records, hshown⟩ := hwatermark through hdone
  obtain ⟨hle, hrecords⟩ := hinv'.faithful _ _ _ hshown
  obtain ⟨ownerView, howner, hshown⟩ := Option.bind_eq_some_iff.mp hshown
  unfold OwnerView.shown at hshown
  split at hshown
  · cases hshown
  next hactive =>
  cases hshown
  have hlength : ownerView.appliedSequence < s'.past.length := by
    rw [hinv'.tracks.past_length]
    omega
  refine ⟨ownerView, s'.past[ownerView.appliedSequence], howner, by simpa using hactive, rfl,
    List.getElem?_eq_getElem hlength, ?_⟩
  refine ExtTreeMap.ext_getElem? fun residence => ?_
  have hpast := hinv'.tracks.past_state _ _ (List.getElem?_eq_getElem hlength) residence
  rw [hrecords, stateAt_scopedResidency, ExtTreeMap.getElem?_filter', hpast]
  cases residency.stateAt log ownerView.appliedSequence residence <;>
    cases s'.index.scope.contains residence.1.ns <;> rfl

end Steps

def shortWire : Wire := ⟨fun _ => 0, fun _ => 0, fun transcript => [transcript.length.toUInt8]⟩

/-- An index that expects the source `2` and has an empty inventory to follow. -/
def unfollowed : Replication where
  inventory := .new 4096
  past := [∅]
  index := .new (.new ⟨"self:7000", 1⟩) 10000 (.exactNamespaces ["ns"])
  session := none

/-- A snapshot of one resident during which a second one appears, up to the commit. -/
def interleavedLabels : List StreamLabel :=
  let metadata : Option ReplicaMetadata := some ⟨.dram, .raw, some 64⟩
  [.call 0 (.membership (.renew 0 100)),
    .call 1 (.membership (.replaceMembers [("a", ⟨"self:7000", 1⟩), ("b", ⟨"peer:7000", 2⟩)])),
    .call 2 (.setExpectedOwners 1 [1, 2]),
    .change ⟨"ns", [7]⟩ .dram metadata,
    .openSession 5 false,
    .source (6, 7) false,
    .source (6, 7) false,
    .source (6, 7) false,
    .change ⟨"ns", [8]⟩ .dram metadata,
    .source (6, 7) false,
    .source (6, 7) false,
    .source (6, 7) false,
    .deliver 3 .accepted,
    .deliver 4 .accepted,
    .deliver 5 .accepted]

theorem replication_converges_interleaved :
    ∃ s s' : Replication,
      interleavedLabels.foldlM (Replication.next shortWire 2) unfollowed = some s ∧
      s.next shortWire 2 (.deliver 6 (.committed 2)) = some s' ∧
      ∃ (ownerView : OwnerView) (residents : RecordMap),
        s'.index.view.owners[(2 : Uuid)]? = some ownerView ∧ ownerView.retired = false ∧
        ownerView.appliedSequence = 2 ∧ s'.past[2]? = some residents ∧
        ownerView.records =
          residents.filter fun residence _ => s'.index.scope.contains residence.1.ns := by
  have hruns : ((interleavedLabels.foldlM (Replication.next shortWire 2) unfollowed).bind
      (·.next shortWire 2 (.deliver 6 (.committed 2)))).isSome = true := by
    decide +kernel
  obtain ⟨s', hruns⟩ := Option.isSome_iff_exists.mp hruns
  obtain ⟨s, hrun, hstep⟩ := Option.bind_eq_some_iff.mp hruns
  have hinit : (streamMachine shortWire 2).Reachable unfollowed :=
    .of_init ⟨⟨4096, rfl⟩, rfl, rfl, rfl⟩
  exact ⟨s, s', hrun, hstep, replication_converges (hinit.foldlM hrun) hstep (.inl rfl)⟩

end OrbitKV
