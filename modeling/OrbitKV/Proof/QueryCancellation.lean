import OrbitKV.Lib.OrderedMap
import OrbitKV.Server.QueryControl

/-!
# Permanence of query cancellation

Tokens are handed out in increasing order, so an interest that is found again with its token is the
one it was.
-/

namespace OrbitKV

open Std ExtTreeMap

/-! ### One interest -/

namespace Interest

variable {ticket : QueryTicket}

structure Valid (interest : Interest) : Prop where
  active : ∀ (ticket : QueryTicket) (reply : RetainedReply),
    interest.replies[ticket]? = some reply →
      ∃ digest, interest.submitted[ticket]? = some (.active digest)
  bounded : interest.submitted.size ≤ maxOperations

structure Evolves (interest later : Interest) : Prop where
  token : later.token = interest.token
  canceled : ∀ ticket : QueryTicket, interest.submitted[ticket]? = some .canceled →
    later.submitted[ticket]? = some .canceled
  dropped : ∀ (ticket : QueryTicket) (reply : RetainedReply),
    interest.replies[ticket]? = some reply →
      later.replies[ticket]? = none → later.submitted[ticket]? = some .canceled
  closed : ∀ ticket other : QueryTicket, other.operationId = ticket.operationId →
    interest.submitted[ticket]? = some .canceled →
      (∀ digest, interest.submitted[other]? ≠ some (.active digest)) →
        ∀ digest, later.submitted[other]? ≠ some (.active digest)
  valid : later.Valid

variable {interest later : Interest}

theorem Valid.evolves_extended (hvalid : interest.Valid) (expires : Nat) :
    interest.Evolves { interest with expires := expires } where
  token := rfl
  canceled _ hcanceled := hcanceled
  dropped _ _ hreply hnone := nomatch hreply.symm.trans hnone
  closed _ _ _ _ hnot := hnot
  valid := ⟨hvalid.active, hvalid.bounded⟩

theorem Valid.evolves_self (hvalid : interest.Valid) : interest.Evolves interest :=
  hvalid.evolves_extended interest.expires

theorem Evolves.trans {last : Interest} (hfirst : interest.Evolves later)
    (hsecond : later.Evolves last) : interest.Evolves last where
  token := hsecond.token.trans hfirst.token
  canceled ticket hcanceled := hsecond.canceled ticket (hfirst.canceled ticket hcanceled)
  dropped ticket reply hreply hnone := by
    cases hmiddle : later.replies[ticket]? with
    | none => exact hsecond.canceled ticket (hfirst.dropped ticket reply hreply hmiddle)
    | some kept => exact hsecond.dropped ticket kept hmiddle hnone
  closed ticket other hoperation hcanceled hnot :=
    hsecond.closed ticket other hoperation (hfirst.canceled ticket hcanceled)
      (hfirst.closed ticket other hoperation hcanceled hnot)
  valid := hsecond.valid

theorem size_insert_le {submitted : ExtTreeMap QueryTicket Submission}
    (hbounded : submitted.size ≤ maxOperations)
    (hroom : submitted[ticket]?.isSome = true ∨ submitted.size < maxOperations)
    (submission : Submission) : (submitted.insert ticket submission).size ≤ maxOperations := by
  rw [size_insert]
  obtain hknown | hroom := hroom
  · rw [if_pos (ExtTreeMap.contains_iff_mem.mpr (mem_iff_isSome_getElem?.mpr hknown))]
    exact hbounded
  · split
    · exact hbounded
    · exact hroom

theorem Valid.evolves_canceled (hvalid : interest.Valid)
    (hroom : interest.submitted[ticket]?.isSome = true ∨ interest.submitted.size < maxOperations) :
    interest.Evolves { interest with
      submitted := interest.submitted.insert ticket .canceled
      replies := interest.replies.erase ticket } where
  token := rfl
  canceled other hcanceled := by
    rw [getElem?_insert]
    split
    · rfl
    · exact hcanceled
  dropped other reply hreply hnone := by
    rw [getElem?_erase] at hnone
    rw [getElem?_insert]
    split at hnone
    next heq => rw [if_pos heq]
    next => exact nomatch hreply.symm.trans hnone
  closed known other _ _ hnot digest := by
    rw [getElem?_insert]
    split
    · simp
    · exact hnot digest
  valid := by
    refine ⟨fun other reply hreply => ?_, size_insert_le hvalid.bounded hroom _⟩
    obtain ⟨hne, hold⟩ := getElem?_erase_eq_some hreply
    rw [getElem?_insert_of_ne hne]
    exact hvalid.active other reply hold

theorem Valid.cancel (hvalid : interest.Valid) (hcancel : interest.cancel ticket = .ok later) :
    interest.Evolves later ∧ later.submitted[ticket]? = some .canceled := by
  unfold Interest.cancel at hcancel
  split at hcancel
  · cases hcancel
  next hroom =>
  cases hcancel
  refine ⟨hvalid.evolves_canceled ?_, getElem?_insert_self⟩
  rw [Bool.and_eq_true, not_and_or, Bool.not_eq_true, Option.isNone_eq_false_iff,
    decide_eq_true_eq, Nat.not_le] at hroom
  exact hroom

theorem Valid.evolves_retained (hvalid : interest.Valid) {digest : Bytes}
    (hactive : interest.submitted[ticket]? = some (.active digest)) (reply : RetainedReply) :
    interest.Evolves { interest with replies := interest.replies.insert ticket reply } where
  token := rfl
  canceled _ hcanceled := hcanceled
  dropped other kept hkept hnone := by
    rw [getElem?_insert] at hnone
    split at hnone
    · cases hnone
    · exact nomatch hkept.symm.trans hnone
  closed _ _ _ _ hnot := hnot
  valid := by
    refine ⟨fun other kept hkept => ?_, hvalid.bounded⟩
    obtain ⟨rfl, -⟩ | ⟨-, hold⟩ := getElem?_insert_eq_some hkept
    · exact ⟨digest, hactive⟩
    · exact hvalid.active other kept hold

theorem operationCanceled_of_canceled {operation : UInt64}
    (hoperation : operation = ticket.operationId)
    (hcanceled : interest.submitted[ticket]? = some .canceled) :
    interest.operationCanceled operation = true := by
  rw [operationCanceled, List.any_eq_true]
  refine ⟨(ticket, .canceled), mem_toList_iff_getElem?_eq_some.mpr hcanceled, ?_⟩
  simp [hoperation]

theorem Valid.evolves_submitted (hvalid : interest.Valid)
    (hnew : interest.submitted[ticket]? = none)
    (hopen : ¬interest.operationCanceled ticket.operationId = true)
    (hroom : interest.submitted.size < maxOperations) (digest : Bytes) :
    interest.Evolves { interest with
      submitted := interest.submitted.insert ticket (.active digest) } where
  token := rfl
  canceled other hcanceled := by
    rw [getElem?_insert_of_ne]
    · exact hcanceled
    · rintro rfl
      rw [hnew] at hcanceled
      cases hcanceled
  dropped _ _ hreply hnone := nomatch hreply.symm.trans hnone
  closed known other hoperation hcanceled hnot := by
    rw [getElem?_insert_of_ne]
    · exact hnot
    · rintro rfl
      exact hopen (operationCanceled_of_canceled hoperation hcanceled)
  valid := by
    refine ⟨fun other reply hreply => ?_, size_insert_le hvalid.bounded (.inr hroom) _⟩
    rw [getElem?_insert]
    split
    · exact ⟨digest, rfl⟩
    · exact hvalid.active other reply hreply

theorem Valid.admit {service : QueryControlService} (hvalid : interest.Valid)
    {command : QueryCommand} {encoded : Bytes}
    (hadmitted : interest.admit service command encoded = .ok (ticket, later)) :
    interest.Evolves later ∧ later.submitted[ticket]? ≠ some .canceled := by
  cases command with
  | claim other count => cases hadmitted
  | poll other =>
    unfold Interest.admit at hadmitted
    dsimp only at hadmitted
    split at hadmitted
    · cases hadmitted
    next hnot =>
      cases hadmitted
      exact ⟨hvalid.evolves_self, hnot⟩
  | submit query =>
    unfold Interest.admit admitSubmit at hadmitted
    dsimp only at hadmitted
    split at hadmitted
    · cases hadmitted
    split at hadmitted
    · cases hadmitted
    next previous hprevious =>
      split at hadmitted
      · cases hadmitted
      · cases hadmitted
        exact ⟨hvalid.evolves_self, by simp [hprevious]⟩
    next hnew =>
      split at hadmitted
      · cases hadmitted
      next hopen =>
      split at hadmitted
      · cases hadmitted
      next hroom =>
      split at hadmitted
      · cases hadmitted
      · cases hadmitted
        refine ⟨hvalid.evolves_submitted hnew hopen (Nat.lt_of_not_le hroom) _, ?_⟩
        simp

theorem Valid.expireReply (hvalid : interest.Valid) (now : Nat)
    {entry : QueryTicket × RetainedReply} (hknown : interest.submitted[entry.1]?.isSome = true) :
    interest.Evolves (interest.expireReply now entry) := by
  unfold Interest.expireReply
  split
  · exact hvalid.evolves_canceled (.inl hknown)
  · exact hvalid.evolves_self

theorem isSome_submitted_expireReply (now : Nat) (entry : QueryTicket × RetainedReply)
    (hknown : interest.submitted[ticket]?.isSome = true) :
    (interest.expireReply now entry).submitted[ticket]?.isSome = true := by
  unfold Interest.expireReply
  split
  · rw [getElem?_insert]
    split
    · rfl
    · exact hknown
  · exact hknown

theorem Valid.expireReplies (hvalid : interest.Valid) (now : Nat) :
    interest.Evolves (interest.expireReplies now) := by
  have hknown : ∀ entry ∈ interest.replies.toList, interest.submitted[entry.1]?.isSome = true := by
    intro entry hentry
    have hreply := mem_toList_iff_getElem?_eq_some.mp hentry
    obtain ⟨digest, hactive⟩ := hvalid.active entry.1 entry.2 hreply
    rw [hactive]
    rfl
  rw [Interest.expireReplies]
  generalize interest.replies.toList = entries at hknown
  induction entries generalizing interest with
  | nil => exact hvalid.evolves_self
  | cons entry entries ih =>
    have hstep := hvalid.expireReply now (hknown entry List.mem_cons_self)
    refine hstep.trans (ih hstep.valid fun other hother => ?_)
    exact isSome_submitted_expireReply now entry (hknown other (List.mem_cons_of_mem _ hother))

end Interest

/-! ### The book -/

namespace ControlBook

def Sound (book : ControlBook) : Prop :=
  ∀ (id : Uuid) (interest : Interest), book.interests[id]? = some interest →
    interest.Valid ∧ interest.token ≤ book.nextToken

structure Follows (book later : ControlBook) : Prop where
  tokens : book.nextToken ≤ later.nextToken
  interests : ∀ (id : Uuid) (interest : Interest), later.interests[id]? = some interest →
    (∃ earlier, book.interests[id]? = some earlier ∧ earlier.Evolves interest) ∨
      interest.Valid ∧ book.nextToken < interest.token ∧ interest.token ≤ later.nextToken

variable {book later last : ControlBook}

theorem sound_new : new.Sound := by
  intro id interest hinterest
  simp [new] at hinterest

theorem Sound.follows (hsound : book.Sound) (hfollows : book.Follows later) : later.Sound := by
  intro id interest hinterest
  obtain ⟨earlier, hearlier, hevolves⟩ | ⟨hvalid, -, htoken⟩ :=
    hfollows.interests id interest hinterest
  · refine ⟨hevolves.valid, ?_⟩
    rw [hevolves.token]
    exact (hsound id earlier hearlier).2.trans hfollows.tokens
  · exact ⟨hvalid, htoken⟩

theorem Sound.follows_self (hsound : book.Sound) : book.Follows book where
  tokens := le_rfl
  interests id interest hinterest :=
    .inl ⟨interest, hinterest, (hsound id interest hinterest).1.evolves_self⟩

theorem Follows.trans (hfirst : book.Follows later) (hsecond : later.Follows last) :
    book.Follows last where
  tokens := hfirst.tokens.trans hsecond.tokens
  interests id interest hinterest := by
    obtain ⟨middle, hmiddle, hevolves⟩ | ⟨hvalid, hnew, htoken⟩ :=
      hsecond.interests id interest hinterest
    · obtain ⟨earlier, hearlier, hfirstly⟩ | ⟨-, hnew, htoken⟩ :=
        hfirst.interests id middle hmiddle
      · exact .inl ⟨earlier, hearlier, hfirstly.trans hevolves⟩
      · refine .inr ⟨hevolves.valid, ?_⟩
        rw [hevolves.token]
        exact ⟨hnew, htoken.trans hsecond.tokens⟩
    · exact .inr ⟨hvalid, hfirst.tokens.trans_lt hnew, htoken⟩

theorem Sound.erase (hsound : book.Sound) (id : Uuid) :
    book.Follows { book with interests := book.interests.erase id } where
  tokens := le_rfl
  interests other interest hinterest := by
    obtain ⟨-, hold⟩ := getElem?_erase_eq_some hinterest
    exact hsound.follows_self.interests other interest hold

theorem Sound.put (hsound : book.Sound) {id : Uuid} {interest interest' : Interest}
    (hinterest : book.interests[id]? = some interest) (hevolves : interest.Evolves interest') :
    book.Follows (book.put id interest') where
  tokens := le_rfl
  interests other found hfound := by
    obtain ⟨rfl, rfl⟩ | ⟨-, hold⟩ := getElem?_insert_eq_some hfound
    · exact .inl ⟨interest, hinterest, hevolves⟩
    · exact hsound.follows_self.interests other found hold

theorem Sound.retire (hsound : book.Sound) (around : Surroundings) :
    book.Follows (book.retire around) where
  tokens := le_rfl
  interests id interest hinterest := by
    simp only [ControlBook.retire] at hinterest
    rw [getElem?_filterMap, Option.pbind_eq_some_iff] at hinterest
    obtain ⟨earlier, hearlier, hkept⟩ := hinterest
    split at hkept
    · cases hkept
      exact .inl ⟨earlier, hearlier, (hsound id earlier hearlier).1.expireReplies _⟩
    · cases hkept

section Calls

variable {service : QueryControlService} {around : Surroundings}

theorem Sound.interest (hsound : book.Sound) {wire : Option QueryInterest}
    {result : Except Status (Uuid × Interest)}
    (hinterest : book.interest service around wire = (result, later)) :
    book.Follows later ∧ ∀ id interest, result = .ok (id, interest) →
      later.interests[id]? = some interest ∧
        ∃ named earlier, wire = some named ∧
          parseUuid named.id "invalid interest id" = .ok id ∧
          book.interests[id]? = some earlier ∧ earlier.submitted = interest.submitted ∧
          earlier.replies = interest.replies := by
  unfold ControlBook.interest at hinterest
  split at hinterest
  · cases hinterest
    exact ⟨hsound.follows_self, nofun⟩
  next named =>
  split at hinterest
  · cases hinterest
    exact ⟨hsound.follows_self, nofun⟩
  next =>
  split at hinterest
  · cases hinterest
    exact ⟨hsound.follows_self, nofun⟩
  next id hid =>
  split at hinterest
  · cases hinterest
    exact ⟨hsound.erase id, nofun⟩
  next =>
  split at hinterest
  · cases hinterest
    exact ⟨hsound.follows_self, nofun⟩
  next earlier hearlier =>
    cases hinterest
    refine ⟨hsound.put hearlier ((hsound id earlier hearlier).1.evolves_extended _), ?_⟩
    intro found interest hfound
    cases hfound
    exact ⟨getElem?_insert_self, named, earlier, rfl, hid, hearlier, rfl, rfl⟩

theorem evolves_serve {interest : Interest} (hvalid : interest.Valid) {ticket : QueryTicket}
    (hticket : interest.submitted[ticket]? ≠ some .canceled)
    (answer : Except String (Option QueryReply)) :
    interest.Evolves (serve service around answer interest ticket).2 := by
  unfold serve
  split
  · split
    · exact hvalid.evolves_self
    next hcancel => exact (hvalid.cancel hcancel).1
  split
  · exact hvalid.evolves_self
  split
  · exact hvalid.evolves_self
  next hknown =>
  split
  · exact hvalid.evolves_self
  · exact hvalid.evolves_self
  split
  · exact hvalid.evolves_self
  · cases hstate : interest.submitted[ticket]? with
    | none => simp [hstate] at hknown
    | some state =>
      cases state with
      | canceled => exact absurd hstate hticket
      | active digest => exact hvalid.evolves_retained hstate _

theorem evolves_deliver {interest : Interest} (hvalid : interest.Valid) (ticket : QueryTicket)
    (lease : Bytes) : interest.Evolves (deliver around interest ticket lease).2 := by
  unfold deliver
  split
  · split
    · exact hvalid.evolves_self
    next hcancel => exact (hvalid.cancel hcancel).1
  split
  · exact hvalid.evolves_self
  next retained hretained =>
  split
  · split
    · obtain ⟨digest, hactive⟩ := hvalid.active ticket retained hretained
      exact hvalid.evolves_retained hactive _
    · exact hvalid.evolves_self
  · exact hvalid.evolves_self

section

variable (hsound : book.Sound)

include hsound

theorem Sound.put_interest {wire : Option QueryInterest} {id : Uuid} {interest interest' : Interest}
    (hinterest : book.interest service around wire = (.ok (id, interest), later))
    (hevolves : interest.Valid → interest.Evolves interest') :
    book.Follows (later.put id interest') := by
  obtain ⟨hfollows, hfound⟩ := hsound.interest hinterest
  have hlater := hsound.follows hfollows
  have hmem := (hfound id interest rfl).1
  exact hfollows.trans (hlater.put hmem (hevolves (hlater id interest hmem).1))

theorem Sound.execute (answer : Except String (Option QueryReply))
    (wire : Option QueryInterest) (command : Slice) :
    book.Follows (book.execute service around answer wire command).2 := by
  unfold ControlBook.execute
  split
  · exact hsound.follows_self
  split
  · exact hsound.follows_self
  split
  next hinterest => exact (hsound.interest hinterest).1
  next id interest later hinterest =>
  split
  · exact (hsound.interest hinterest).1
  next ticket admitted hadmitted =>
    apply hsound.put_interest hinterest
    intro hvalid
    obtain ⟨hevolves, hticket⟩ := hvalid.admit hadmitted
    exact hevolves.trans (evolves_serve hevolves.valid hticket answer)

theorem Sound.claim (wire : Option QueryInterest) (ticket : QueryTicket)
    (lease : Bytes) : book.Follows (book.claim service around wire ticket lease).2 := by
  unfold ControlBook.claim
  split
  next hinterest => exact (hsound.interest hinterest).1
  next id interest later hinterest =>
    exact hsound.put_interest hinterest fun hvalid => evolves_deliver hvalid ticket lease

theorem Sound.cancel (wire : Option QueryInterest) (ticket : QueryTicket) :
    book.Follows (book.cancel service around wire ticket).2 := by
  unfold ControlBook.cancel
  split
  · exact hsound.follows_self
  split
  next hinterest => exact (hsound.interest hinterest).1
  next id interest later hinterest =>
  split
  · exact (hsound.interest hinterest).1
  next canceled hcancel =>
    exact hsound.put_interest hinterest fun hvalid => (hvalid.cancel hcancel).1

theorem Sound.close (wire : QueryInterest) : book.Follows (book.close service wire).2 := by
  unfold ControlBook.close
  split
  · exact hsound.follows_self
  split
  · exact hsound.follows_self
  · exact hsound.erase _

theorem Sound.exportTarget (registration : Except String QueryRegistration)
    (capability : Uuid) (capabilityBytes : Bytes) (request : SessionRequest) :
    book.Follows
      (book.exportTarget service around registration capability capabilityBytes request).2 := by
  have hretired := hsound.retire around
  unfold ControlBook.exportTarget
  split
  · exact hsound.follows_self
  split
  · exact hsound.follows_self
  dsimp only
  iterate 6
    split
    · exact hretired
  · exact ⟨hretired.tokens, hretired.interests⟩

theorem Sound.openInterest (id : Uuid)
    (idBytes coordinatorIncarnation : Bytes) (target : Option RegisteredQueryTarget) :
    book.Follows (book.openInterest service around id idBytes coordinatorIncarnation target).2 := by
  have hretired := hsound.retire around
  unfold ControlBook.openInterest
  split
  · exact hsound.follows_self
  · exact hsound.follows_self
  split
  · exact hsound.follows_self
  dsimp only
  iterate 4
    split
    · exact hretired
  · apply hretired.trans
    refine ⟨Nat.le_add_right _ _, fun other interest hinterest => ?_⟩
    obtain ⟨rfl, rfl⟩ | ⟨-, hold⟩ := getElem?_insert_eq_some hinterest
    · refine .inr ⟨⟨?_, ?_⟩, Nat.lt_add_of_pos_right (by decide), le_rfl⟩
      · simp
      · simp
    · exact .inl ⟨interest, hold, (hsound.follows hretired other interest hold).1.evolves_self⟩

theorem Sound.after (call : ControlCall) : book.Follows (book.after service around call) := by
  cases call with
  | exportTarget registration capability capabilityBytes request =>
    exact hsound.exportTarget registration capability capabilityBytes request
  | openInterest id idBytes coordinatorIncarnation target =>
    exact hsound.openInterest id idBytes coordinatorIncarnation target
  | execute answer wire command => exact hsound.execute answer wire command
  | claim wire ticket lease => exact hsound.claim wire ticket lease
  | cancel wire ticket => exact hsound.cancel wire ticket
  | close wire => exact hsound.close wire
  | retire => exact hsound.retire around
  | stop =>
    have hclosed : { book with closed := true }.Sound := hsound
    have hretired := hclosed.retire around
    exact ⟨hretired.tokens, hretired.interests⟩

end

end Calls

variable {service : QueryControlService}

theorem sound_of_reachable (hreach : (machine service).Reachable book) : book.Sound := by
  refine hreach.invariant ?_ ?_
  · rintro start rfl
    exact sound_new
  · rintro start ⟨around, call⟩ stop hstart hstep
    cases hstep
    exact hstart.follows (hstart.after call)

theorem Sound.run (hsound : book.Sound) {calls : List (Surroundings × ControlCall)}
    (hrun : (machine service).Run book calls later) : book.Follows later := by
  refine hrun.invariant (I := fun reached => book.Follows reached) ?_ hsound.follows_self
  rintro start ⟨around, call⟩ stop hstart hstep
  cases hstep
  exact hstart.trans ((hsound.follows hstart).after call)

theorem Follows.evolves (hfollows : book.Follows later) (hsound : book.Sound) {id : Uuid}
    {interest interest' : Interest} (hinterest : book.interests[id]? = some interest)
    (hinterest' : later.interests[id]? = some interest')
    (htoken : interest'.token = interest.token) : interest.Evolves interest' := by
  obtain ⟨earlier, hearlier, hevolves⟩ | ⟨-, hnew, -⟩ := hfollows.interests id interest' hinterest'
  · rw [hinterest] at hearlier
    cases hearlier
    exact hevolves
  · have hold := (hsound id interest hinterest).2
    omega

/-! ### Canceled tickets -/

section Canceled

variable {around : Surroundings} {id : Uuid} {interest : Interest} {ticket : QueryTicket}
  {wire : QueryInterest}

theorem Sound.found (hsound : book.Sound)
    (hnamed : parseUuid wire.id "invalid interest id" = .ok id)
    (hinterest : book.interests[id]? = some interest) {id' : Uuid} {found : Interest}
    (hfound : book.interest service around (some wire) = (.ok (id', found), later)) :
    id' = id ∧ found.submitted = interest.submitted ∧ found.replies = interest.replies := by
  obtain ⟨-, hspec⟩ := hsound.interest hfound
  obtain ⟨-, named, earlier, hwire, hparsed, hearlier, hsubmitted, hreplies⟩ := hspec id' found rfl
  cases hwire
  rw [hnamed] at hparsed
  cases hparsed
  rw [hinterest] at hearlier
  cases hearlier
  exact ⟨rfl, hsubmitted.symm, hreplies.symm⟩

theorem Sound.execute_rejected (hsound : book.Sound)
    (hnamed : parseUuid wire.id "invalid interest id" = .ok id)
    (hinterest : book.interests[id]? = some interest) {command : Slice} {decoded : QueryCommand}
    (hdecoded : QueryCommand.decode command = .ok decoded)
    (hrejected : ∀ found : Interest, found.submitted = interest.submitted →
      ∀ admitted, found.admit service decoded command.bytes ≠ .ok admitted)
    (answer : Except String (Option QueryReply)) :
    ∃ status, (book.execute service around answer (some wire) command).1 = .error status := by
  unfold ControlBook.execute
  split
  · exact ⟨_, rfl⟩
  rw [hdecoded]
  dsimp only
  split
  · exact ⟨_, rfl⟩
  next id' found later hfound =>
  split
  · exact ⟨_, rfl⟩
  next hadmitted =>
    have hsubmitted := (hsound.found hnamed hinterest hfound).2.1
    exact absurd hadmitted (hrejected found hsubmitted _)

end Canceled

end ControlBook

def QueryCommand.ticket : QueryCommand → QueryTicket
  | .submit query => query.ticket
  | .poll ticket => ticket
  | .claim ticket _ => ticket

namespace Interest

variable {interest : Interest} {service : QueryControlService} {ticket : QueryTicket}

theorem admit_of_canceled {command : QueryCommand} (hticket : command.ticket = ticket)
    (hcanceled : interest.submitted[ticket]? = some .canceled) (encoded : Bytes)
    (admitted : QueryTicket × Interest) :
    interest.admit service command encoded ≠ .ok admitted := by
  subst hticket
  cases command with
  | claim other count => exact nofun
  | poll other =>
    have hother : interest.submitted[other]? = some .canceled := hcanceled
    unfold Interest.admit
    dsimp only
    rw [if_pos hother]
    exact nofun
  | submit query =>
    have hquery : interest.submitted[query.ticket]? = some .canceled := hcanceled
    unfold Interest.admit admitSubmit
    dsimp only
    rw [hquery]
    split
    · exact nofun
    · exact nofun

theorem admit_of_operation {query : QueryBundleRequest}
    (hoperation : query.ticket.operationId = ticket.operationId)
    (hcanceled : interest.submitted[ticket]? = some .canceled)
    (hnew : ∀ digest, interest.submitted[query.ticket]? ≠ some (.active digest)) (encoded : Bytes)
    (admitted : QueryTicket × Interest) :
    interest.admit service (.submit query) encoded ≠ .ok admitted := by
  have hseen := operationCanceled_of_canceled hoperation hcanceled
  unfold Interest.admit admitSubmit
  dsimp only
  split
  · exact nofun
  split
  · exact nofun
  next previous hprevious => exact absurd hprevious (hnew previous)
  next => exact nofun

end Interest

namespace ControlBook

variable {book : ControlBook} {service : QueryControlService}

theorem Sound.claim_rejected (hsound : book.Sound) {around : Surroundings} {id : Uuid}
    {interest : Interest} {ticket : QueryTicket} {wire : QueryInterest}
    (hnamed : parseUuid wire.id "invalid interest id" = .ok id)
    (hinterest : book.interests[id]? = some interest)
    (hcanceled : interest.submitted[ticket]? = some .canceled) (lease : Bytes) :
    ∃ status, (book.claim service around (some wire) ticket lease).1 = .error status := by
  have hnone : interest.replies[ticket]? = none := by
    cases hreply : interest.replies[ticket]? with
    | none => rfl
    | some reply =>
      obtain ⟨digest, hactive⟩ := (hsound id interest hinterest).1.active ticket reply hreply
      rw [hcanceled] at hactive
      cases hactive
  unfold ControlBook.claim
  split
  · exact ⟨_, rfl⟩
  next id' found later hfound =>
    obtain ⟨-, -, hreplies⟩ := hsound.found hnamed hinterest hfound
    rw [← hreplies] at hnone
    simp [deliver, Interest.replyExpired, hnone]

theorem Sound.canceled_of_cancel (hsound : book.Sound) {around : Surroundings} {id : Uuid}
    {ticket : QueryTicket} {wire : QueryInterest}
    (hnamed : parseUuid wire.id "invalid interest id" = .ok id)
    (hok : (book.cancel service around (some wire) ticket).1 = .ok ()) :
    ∃ interest, (book.cancel service around (some wire) ticket).2.interests[id]? = some interest ∧
      interest.submitted[ticket]? = some .canceled := by
  unfold ControlBook.cancel at hok ⊢
  split at hok
  · cases hok
  next hticket =>
  rw [if_neg hticket]
  split at hok
  · cases hok
  next id' found later hfound =>
  split at hok
  · cases hok
  next canceled hcancel =>
  obtain ⟨hfollows, hspec⟩ := hsound.interest hfound
  obtain ⟨hmem, named, earlier, hwire, hparsed, -⟩ := hspec id' found rfl
  cases hwire
  rw [hnamed] at hparsed
  cases hparsed
  have hvalid := (hsound.follows hfollows id found hmem).1
  exact ⟨canceled, getElem?_insert_self, (hvalid.cancel hcancel).2⟩

end ControlBook

/-- **Permanence.** In every state of the book, an interest has at most `maxOperations` submissions
and retains replies of active ones only; a cancellation that succeeds, and every reply that an
interest loses, leave the ticket canceled. From then on and for as long as the interest lives, with
whatever calls in between, the ticket stays canceled, no call for it is answered with a result, and
no further revision of its operation is admitted. -/
theorem query_cancellation_permanent {service : QueryControlService} {book : ControlBook}
    (hreach : (ControlBook.machine service).Reachable book) :
    (∀ (id : Uuid) (interest : Interest), book.interests[id]? = some interest →
      interest.submitted.size ≤ maxOperations ∧
      ∀ (ticket : QueryTicket) (reply : RetainedReply), interest.replies[ticket]? = some reply →
        ∃ digest, interest.submitted[ticket]? = some (.active digest)) ∧
    (∀ (around : Surroundings) (id : Uuid) (ticket : QueryTicket) (wire : QueryInterest),
      parseUuid wire.id "invalid interest id" = .ok id →
      (book.cancel service around (some wire) ticket).1 = .ok () →
      ∃ interest, (book.cancel service around (some wire) ticket).2.interests[id]? =
        some interest ∧ interest.submitted[ticket]? = some .canceled) ∧
    (∀ (around : Surroundings) (call : ControlCall) (id : Uuid) (interest interest' : Interest),
      book.interests[id]? = some interest →
      (book.after service around call).interests[id]? = some interest' →
      interest'.token = interest.token → ∀ (ticket : QueryTicket) (reply : RetainedReply),
      interest.replies[ticket]? = some reply → interest'.replies[ticket]? = none →
      interest'.submitted[ticket]? = some .canceled) ∧
    ∀ calls later, (ControlBook.machine service).Run book calls later →
      ∀ (id : Uuid) (interest interest' : Interest) (ticket : QueryTicket),
      book.interests[id]? = some interest → interest.submitted[ticket]? = some .canceled →
      later.interests[id]? = some interest' → interest'.token = interest.token →
        interest'.submitted[ticket]? = some .canceled ∧
        ∀ (around : Surroundings) (wire : QueryInterest),
          parseUuid wire.id "invalid interest id" = .ok id →
          (∀ lease, ∃ status,
            (later.claim service around (some wire) ticket lease).1 = .error status) ∧
          ∀ (answer : Except String (Option QueryReply)) (command : Slice),
            (∀ decoded, QueryCommand.decode command = .ok decoded → decoded.ticket = ticket →
              ∃ status, (later.execute service around answer (some wire) command).1 =
                .error status) ∧
            ∀ query, QueryCommand.decode command = .ok (.submit query) →
              query.ticket.operationId = ticket.operationId →
              (∀ digest, interest.submitted[query.ticket]? ≠ some (.active digest)) →
              ∃ status, (later.execute service around answer (some wire) command).1 =
                .error status := by
  have hsound := ControlBook.sound_of_reachable hreach
  refine ⟨?_, ?_, ?_, ?_⟩
  · intro id interest hinterest
    have hvalid := (hsound id interest hinterest).1
    exact ⟨hvalid.bounded, hvalid.active⟩
  · intro around id ticket wire hnamed hok
    exact hsound.canceled_of_cancel hnamed hok
  · intro around call id interest interest' hinterest hinterest' htoken
    exact ((hsound.after call).evolves hsound hinterest hinterest' htoken).dropped
  · intro calls later hrun id interest interest' ticket hinterest hcanceled hinterest' htoken
    have hfollows := hsound.run hrun
    have hlater := hsound.follows hfollows
    have hevolves := hfollows.evolves hsound hinterest hinterest' htoken
    have hstays := hevolves.canceled ticket hcanceled
    refine ⟨hstays, fun around wire hnamed => ⟨hlater.claim_rejected hnamed hinterest' hstays, ?_⟩⟩
    intro answer command
    constructor
    · intro decoded hdecoded hticket
      apply hlater.execute_rejected hnamed hinterest' hdecoded
      intro found hfound
      rw [← hfound] at hstays
      exact Interest.admit_of_canceled hticket hstays _
    · intro query hdecoded hoperation hnew
      have hclosed := hevolves.closed ticket query.ticket hoperation hcanceled hnew
      apply hlater.execute_rejected hnamed hinterest' hdecoded
      intro found hfound
      rw [← hfound] at hstays hclosed
      exact Interest.admit_of_operation hoperation hstays hclosed _

def plainService : QueryControlService where
  endpoint := "a:7000"
  incarnation := [7]
  sha256 := id
  encodedLen _ := 0
  errorText _ := "error"

def plainTarget : RegisteredQueryTarget :=
  ⟨1, "a:7000", "model", "ns", "store", 1, 1, [7], [5], List.replicate 15 0 ++ [1]⟩

def plainQuery : QueryBundleRequest :=
  ⟨⟨3, 1⟩, "model", "r", [[1]], 0, false, false, false, false, false, none⟩

def plainCommand : Slice :=
  ⟨plainQuery.encode.toOption.getD [], by decide +kernel⟩

def plainInterest : QueryInterest :=
  ⟨List.replicate 15 0 ++ [2], [7]⟩

def atRest : Surroundings :=
  ⟨fun _ => 0, fun _ => true⟩

/-- A target is exported, an interest is opened in it, and the reply to a query is retained. -/
def repliedCalls : List (Surroundings × ControlCall) :=
  [(atRest, .exportTarget (.ok ⟨[5], "ns", "store", 1, 1⟩) 1 (List.replicate 15 0 ++ [1])
      ⟨"model", "ns", 1, 1⟩),
    (atRest, .openInterest 2 (List.replicate 15 0 ++ [2]) (List.replicate 15 0 ++ [9])
      (some plainTarget)),
    (atRest, .execute (.ok (some ⟨.ok (.ready 1 [4] []), false⟩)) (some plainInterest)
      plainCommand)]

def cancelPlain (book : ControlBook) : Except Status Unit × ControlBook :=
  book.cancel plainService atRest (some plainInterest) plainQuery.ticket

/-- The ticket of a retained reply is canceled: the reply goes with it, and the query that it answered
is refused for good. -/
theorem query_cancellation_permanent_canceled :
    ∃ book : ControlBook, (ControlBook.machine plainService).Reachable book ∧
      (book.interests[(2 : Uuid)]?.bind (·.replies[plainQuery.ticket]?)).isSome = true ∧
      ∃ interest, (cancelPlain book).2.interests[(2 : Uuid)]? = some interest ∧
        interest.submitted[plainQuery.ticket]? = some .canceled ∧
        ∀ calls later, (ControlBook.machine plainService).Run (cancelPlain book).2 calls later →
          ∀ interest', later.interests[(2 : Uuid)]? = some interest' →
          interest'.token = interest.token → ∀ answer, ∃ status,
            (later.execute plainService atRest answer (some plainInterest) plainCommand).1 =
              .error status := by
  have hnamed : parseUuid plainInterest.id "invalid interest id" = .ok 2 := by decide +kernel
  have hdecoded : (QueryCommand.decode plainCommand).toOption.any
      (fun decoded => decide (decoded.ticket = plainQuery.ticket)) = true := by
    decide +kernel
  have hrun : (repliedCalls.foldlM (fun (book : ControlBook) call =>
      some (book.after plainService call.1 call.2)) ControlBook.new).any (fun book => decide
        ((book.interests[(2 : Uuid)]?.bind (·.replies[plainQuery.ticket]?)).isSome = true ∧
          (cancelPlain book).1.isOk = true)) = true := by
    decide +kernel
  obtain ⟨book, hreach, hreply, hcancel⟩ :=
    (ControlBook.machine plainService).exists_reachable rfl rfl hrun
  have hok : (cancelPlain book).1 = .ok () := by
    cases hresult : (cancelPlain book).1 with
    | ok => rfl
    | error status => simp [hresult, Except.isOk, Except.toBool] at hcancel
  obtain ⟨interest, hinterest, hcanceled⟩ :=
    (query_cancellation_permanent hreach).2.1 atRest 2 _ plainInterest hnamed hok
  refine ⟨book, hreach, hreply, interest, hinterest, hcanceled, ?_⟩
  intro calls later hlater interest' hinterest' htoken answer
  have hstep : (ControlBook.machine plainService).Reachable (cancelPlain book).2 :=
    hreach.step (l := (atRest, .cancel (some plainInterest) plainQuery.ticket)) rfl
  have hstays := (query_cancellation_permanent hstep).2.2.2 calls later hlater 2 interest interest'
    plainQuery.ticket hinterest hcanceled hinterest' htoken
  cases hcommand : QueryCommand.decode plainCommand with
  | error error => simp [hcommand, Except.toOption] at hdecoded
  | ok decoded =>
    refine ((hstays.2 atRest plainInterest hnamed).2 answer plainCommand).1 decoded hcommand ?_
    simpa [hcommand, Except.toOption] using hdecoded

end OrbitKV
