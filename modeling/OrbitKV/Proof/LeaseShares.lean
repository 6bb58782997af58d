import OrbitKV.Query.Lease

/-!
# Batches of lease shares

What is left of a lease and the batches that have had it add up to the consumers it was created for.
-/

namespace OrbitKV

open Function

variable {S O R V : Type}

namespace QueryLeases

variable {leases : QueryLeases S O R} {now : Nat} {instanceId : String}
  {tokens : List QueryLeaseId}

section

variable (leases now instanceId tokens)

def Consumable : Prop :=
  tokens.Nodup ∧ ∀ token ∈ tokens, ∃ lease, leases token = some lease ∧ now < lease.expiresAt ∧
    lease.instanceId = instanceId

def sources : Option (List (List S)) :=
  tokens.mapM fun token => (leases token).map (·.blocks)

def Accepts (validate : List (List S) → Except EngineError V) : Prop :=
  leases.Consumable now instanceId tokens ∧ ∃ blocks validated,
    leases.sources tokens = some blocks ∧ validate blocks = .ok validated

def share : QueryLeases S O R := fun token =>
  if token ∈ tokens then (leases token).bind QueryLease.afterShare else leases token

theorem checkBatch_cases (seen : List QueryLeaseId) :
    (leases.checkBatch now instanceId tokens seen = .ok () ∧
        leases.Consumable now instanceId tokens ∧ ∀ token ∈ tokens, token ∉ seen) ∨
      ∃ e, leases.checkBatch now instanceId tokens seen = fail e := by
  induction tokens generalizing seen with
  | nil => exact .inl ⟨rfl, ⟨List.nodup_nil, nofun⟩, nofun⟩
  | cons token tokens ih =>
    rw [checkBatch]
    split
    case isTrue => exact .inr ⟨_, rfl⟩
    case isFalse hseen =>
    split
    · exact .inr ⟨_, rfl⟩
    next lease hsome =>
    obtain ⟨hlease, hlive⟩ := Option.filter_eq_some_iff.mp hsome
    split
    case isTrue => exact .inr ⟨_, rfl⟩
    case isFalse hinstance =>
      refine (ih (token :: seen)).imp_left fun ⟨hok, ⟨hnodup, hall⟩, hfresh⟩ => ?_
      refine ⟨hok, ⟨List.nodup_cons.mpr ⟨fun hmem => ?_, hnodup⟩, List.forall_mem_cons.mpr
        ⟨⟨lease, hlease, by simpa using hlive, not_not.mp hinstance⟩, hall⟩⟩,
        List.forall_mem_cons.mpr ⟨hseen, fun other hother hmem => ?_⟩⟩
      · exact hfresh token hmem List.mem_cons_self
      · exact hfresh other hother (List.mem_cons_of_mem _ hmem)

end

theorem exists_sources (hall : ∀ token ∈ tokens, ∃ lease, leases token = some lease) :
    ∃ blocks, leases.sources tokens = some blocks := by
  induction tokens with
  | nil => exact ⟨[], rfl⟩
  | cons token tokens ih =>
    obtain ⟨lease, hlease⟩ := hall token List.mem_cons_self
    obtain ⟨blocks, hblocks⟩ := ih fun other hother => hall other (List.mem_cons_of_mem _ hother)
    exact ⟨lease.blocks :: blocks, by simp_all [sources]⟩

theorem takeShares_eq (hnodup : tokens.Nodup)
    (hall : ∀ token ∈ tokens, ∃ lease, leases token = some lease) (blocks : List S)
    (reservations : List R) :
    ∃ taken, takeShares tokens leases blocks reservations = (.ok taken, leases.share tokens) := by
  induction tokens generalizing leases blocks reservations with
  | nil => exact ⟨_, rfl⟩
  | cons token tokens ih =>
    obtain ⟨hfresh, hnodup⟩ := List.nodup_cons.mp hnodup
    obtain ⟨lease, hlease⟩ := hall token List.mem_cons_self
    have hsame : ∀ other ∈ tokens, update leases token lease.afterShare other = leases other := by
      rintro other hother
      exact update_of_ne (by rintro rfl; exact hfresh hother) ..
    have hrest : ∀ other ∈ tokens, ∃ share, update leases token lease.afterShare other =
        some share := fun other hother =>
      hsame other hother ▸ hall other (List.mem_cons_of_mem _ hother)
    obtain ⟨taken, htaken⟩ := ih hnodup hrest (blocks ++ lease.blocks)
      (reservations ++ (lease.ownership.map (·.2)).toList)
    refine ⟨taken, ?_⟩
    rw [takeShares, hlease]
    dsimp only
    rw [htaken]
    congr 1
    funext other
    rw [share, share]
    by_cases heq : other = token
    · subst heq
      simp [hfresh, hlease]
    · by_cases hother : other ∈ tokens
      · rw [if_pos hother, if_pos (List.mem_cons_of_mem _ hother), hsame other hother]
      · rw [if_neg hother, if_neg (by simp [heq, hother]), update_of_ne heq]

theorem consumeBatch_cases (leases : QueryLeases S O R) (now : Nat) (instanceId : String)
    (tokens : List QueryLeaseId) (validate : List (List S) → Except EngineError V) :
    (leases.Accepts now instanceId tokens validate ∧ ∃ taken,
        leases.consumeBatch now instanceId tokens validate = (.ok taken, leases.share tokens)) ∨
      ∃ e, leases.consumeBatch now instanceId tokens validate = (fail e, leases) := by
  rw [consumeBatch]
  rcases leases.checkBatch_cases now instanceId tokens [] with ⟨hok, hall, -⟩ | ⟨e, hfail⟩
  · have hpresent : ∀ token ∈ tokens, ∃ lease, leases token = some lease := fun token htoken =>
      (hall.2 token htoken).imp fun _ hlease => hlease.1
    obtain ⟨blocks, hblocks⟩ := exists_sources hpresent
    have hmap : (tokens.mapM fun token => (leases token).map (·.blocks)) = some blocks := hblocks
    simp only [hok, hmap]
    cases hvalidate : validate blocks with
    | error e => exact .inr ⟨e, rfl⟩
    | ok validated =>
      obtain ⟨taken, htaken⟩ := takeShares_eq hall.1 hpresent [] []
      simp only [htaken]
      exact .inl ⟨⟨hall, blocks, validated, hblocks, hvalidate⟩, _, rfl⟩
  · rw [hfail]
    exact .inr ⟨e, rfl⟩

end QueryLeases

namespace LeaseHistory

variable {h : LeaseHistory S O R}

def machine : Machine (LeaseHistory S O R) (LeaseCall S O R) :=
  .ofNext (· = new) fun h call => some (h.next call)

structure Ledger (h : LeaseHistory S O R) : Prop where
  counted : ∀ token lease, h.leases token = some lease → lease.serial < h.created ∧
    0 < lease.remainingConsumers ∧
    lease.remainingConsumers + h.handed lease.serial = max (h.consumers lease.serial) 1
  unique : ∀ first second lease lease', h.leases first = some lease →
    h.leases second = some lease' → lease.serial = lease'.serial → first = second
  bounded : ∀ serial, h.handed serial ≤ max (h.consumers serial) 1
  fresh : ∀ serial, h.created ≤ serial → h.handed serial = 0

theorem Ledger.shrink (hledger : h.Ledger) {leases : QueryLeases S O R}
    (hleft : ∀ token lease, leases token = some lease → h.leases token = some lease) :
    Ledger { h with leases } where
  counted token lease hlease := hledger.counted token lease (hleft token lease hlease)
  unique first second lease lease' hfirst hsecond :=
    hledger.unique first second lease lease' (hleft _ _ hfirst) (hleft _ _ hsecond)
  bounded := hledger.bounded
  fresh := hledger.fresh

theorem Ledger.retain (hledger : h.Ledger) (keep : QueryLease S O R → Bool) :
    Ledger { h with leases := h.leases.retain keep } :=
  hledger.shrink fun _ _ hlease => (Option.filter_eq_some_iff.mp hlease).1

theorem Ledger.create (hledger : h.Ledger) (token : QueryLeaseId)
    (lease : QueryLease S O R) {consumers : Nat}
    (hserial : lease.serial = h.created) (hshares : lease.remainingConsumers = max consumers 1) :
    Ledger { h with
      leases := h.leases.insert token lease
      created := h.created + 1
      consumers := update h.consumers h.created consumers } := by
  have hold : ∀ other found, h.leases.insert token lease other = some found →
      other = token ∧ found = lease ∨ h.leases other = some found := by
    intro other found hfound
    rw [QueryLeases.insert, update_apply] at hfound
    split at hfound
    case isTrue heq => exact .inl ⟨heq, (Option.some.inj hfound).symm⟩
    case isFalse hne => exact .inr hfound
  have hnone := hledger.fresh h.created le_rfl
  refine ⟨fun other found hfound => ?_, fun first second found found' hfirst hsecond hsame => ?_,
    fun serial => ?_, fun serial hserial => hledger.fresh serial (Nat.le_of_lt hserial)⟩
  · rcases hold other found hfound with ⟨rfl, rfl⟩ | hfound
    · simp [hserial, hshares, hnone]
    · obtain ⟨hlt, hpos, hsum⟩ := hledger.counted other found hfound
      simp only [update_of_ne hlt.ne]
      exact ⟨Nat.lt_succ_of_lt hlt, hpos, hsum⟩
  · rcases hold first found hfirst with ⟨rfl, rfl⟩ | hleft <;>
      rcases hold second found' hsecond with ⟨rfl, rfl⟩ | hright
    · rfl
    · have hlt := (hledger.counted second found' hright).1
      omega
    · have hlt := (hledger.counted first found hleft).1
      omega
    · exact hledger.unique first second found found' hleft hright hsame
  · by_cases heq : serial = h.created
    · subst heq
      simp [hnone]
    · simpa [update_of_ne heq] using hledger.bounded serial

theorem holds_iff {tokens : List QueryLeaseId} {serial : Nat} :
    h.holds tokens serial = true ↔
      ∃ token ∈ tokens, ∃ lease, h.leases token = some lease ∧ lease.serial = serial := by
  simp [holds, Option.any_eq_true]

theorem Ledger.consume (hledger : h.Ledger) (tokens : List QueryLeaseId) :
    Ledger { h with
      leases := h.leases.share tokens
      handed := fun serial => h.handed serial + if h.holds tokens serial then 1 else 0 } := by
  have hold : ∀ token lease, h.leases.share tokens token = some lease → ∃ old,
      h.leases token = some old ∧ old.serial = lease.serial ∧ 0 < lease.remainingConsumers ∧
        lease.remainingConsumers + (if h.holds tokens lease.serial then 1 else 0) =
          old.remainingConsumers := by
    intro token lease hlease
    rw [QueryLeases.share] at hlease
    split at hlease
    case isTrue htoken =>
      obtain ⟨old, hold, hlease⟩ := Option.bind_eq_some_iff.mp hlease
      obtain ⟨hmany, hlease⟩ := Option.ite_none_right_eq_some.mp hlease
      cases hlease
      have hholds : h.holds tokens old.serial = true := holds_iff.mpr ⟨token, htoken, old, hold, rfl⟩
      exact ⟨old, hold, rfl, by dsimp only; omega, by simp only [hholds, if_true]; omega⟩
    case isFalse htoken =>
      have hholds : ¬h.holds tokens lease.serial = true := fun hholds => by
        obtain ⟨other, hother, found, hfound, hserial⟩ := holds_iff.mp hholds
        exact htoken (hledger.unique other token found lease hfound hlease hserial ▸ hother)
      exact ⟨lease, hlease, rfl, (hledger.counted token lease hlease).2.1, by simp [hholds]⟩
  refine ⟨fun token lease hlease => ?_, fun first second lease lease' hfirst hsecond hsame => ?_,
    fun serial => ?_, fun serial hserial => ?_⟩
  · obtain ⟨old, hleased, hserial, hpos, hsum⟩ := hold token lease hlease
    obtain ⟨hlt, -, hcount⟩ := hledger.counted token old hleased
    rw [hserial] at hlt hcount
    refine ⟨hlt, hpos, ?_⟩
    dsimp only
    omega
  · obtain ⟨old, hfirst, hserial, -⟩ := hold first lease hfirst
    obtain ⟨old', hsecond, hserial', -⟩ := hold second lease' hsecond
    exact hledger.unique first second old old' hfirst hsecond (by rw [hserial, hserial', hsame])
  · have hbound := hledger.bounded serial
    dsimp only
    split
    case isFalse => exact hbound
    case isTrue hholds =>
      obtain ⟨token, -, lease, hlease, rfl⟩ := holds_iff.mp hholds
      obtain ⟨-, hpos, hcount⟩ := hledger.counted token lease hlease
      omega
  · have hnone := hledger.fresh serial hserial
    have hholds : ¬h.holds tokens serial = true := fun hholds => by
      obtain ⟨token, -, lease, hlease, rfl⟩ := holds_iff.mp hholds
      exact absurd (hledger.counted token lease hlease).1 (Nat.not_lt.mpr hserial)
    simp [hnone, hholds]

theorem Ledger.next (hledger : h.Ledger) (call : LeaseCall S O R) : (h.next call).Ledger := by
  cases call with
  | create now token instanceId blocks consumers ownership =>
    exact (hledger.retain _).create token _ rfl rfl
  | consumeBatch now instanceId tokens validate =>
    unfold LeaseHistory.next
    rcases h.leases.consumeBatch_cases now instanceId tokens validate with
      ⟨-, taken, hok⟩ | ⟨e, hfail⟩
    · simp only [hok]
      exact hledger.consume tokens
    · simp only [hfail]
      exact hledger
  | release now token =>
    refine (hledger.retain (now < ·.expiresAt)).shrink fun other lease hlease => ?_
    change update (h.leases.sweepExpired now) token none other = some lease at hlease
    rw [update_apply] at hlease
    split at hlease
    · cases hlease
    · exact hlease
  | releaseInstance instanceId => exact hledger.retain _
  | releaseOwner isOwner => exact hledger.retain _
  | sweepExpired now => exact hledger.retain _

theorem Ledger.reachable (hreach : machine.Reachable h) : h.Ledger :=
  hreach.invariant (I := Ledger) (by rintro _ rfl; exact ⟨nofun, nofun, by simp [new], by simp [new]⟩)
    fun _ call _ hledger hstep => Option.some.inj hstep ▸ hledger.next call

/-- **Lease batches.** In every history a batch with a token that is unknown, expired, repeated or
of another instance, or whose validation fails, returns an error and leaves the table alone. A lease
is handed out by at most as many batches as it was created for, and at least by one; and after a
release no batch gets a share of it. -/
theorem lease_batches_all_or_nothing (hreach : machine.Reachable h) :
    (∀ now instanceId tokens (validate : List (List S) → Except EngineError V),
      ¬h.leases.Accepts now instanceId tokens validate →
        ∃ e, h.leases.consumeBatch now instanceId tokens validate = (fail e, h.leases)) ∧
    (∀ serial, h.handed serial ≤ max (h.consumers serial) 1) ∧
    ∀ now token leases, (h.leases.release now token).2 = leases → leases token = none ∧
      ∀ now instanceId tokens (validate : List (List S) → Except EngineError V), token ∈ tokens →
        ∃ e, leases.consumeBatch now instanceId tokens validate = (fail e, leases) := by
  refine ⟨fun now instanceId tokens validate hbad => ?_, (Ledger.reachable hreach).bounded, ?_⟩
  · exact (h.leases.consumeBatch_cases now instanceId tokens validate).resolve_left fun hok =>
      hbad hok.1
  · rintro now token leases rfl
    have hgone : (h.leases.release now token).2 token = none := update_self ..
    refine ⟨hgone, fun now' instanceId tokens validate htoken => ?_⟩
    refine (QueryLeases.consumeBatch_cases _ now' instanceId tokens validate).resolve_left ?_
    rintro ⟨hall, -⟩
    obtain ⟨lease, hlease, -⟩ := hall.1.2 token htoken
    cases hgone.symm.trans hlease

/-- A lease for two consumers, fetched by two batches and refused to a third. -/
def sharedCalls : List (LeaseCall Nat Nat Nat) :=
  let token : QueryLeaseId := .replicate 16 0
  .create 0 token "a" [7] 2 none ::
    List.replicate 3 (.consumeBatch 1 "a" [token] fun _ => .ok ())

theorem lease_batches_all_or_nothing_shared :
    ∃ h : LeaseHistory Nat Nat Nat, machine.Reachable h ∧ h.consumers 0 = 2 ∧ h.handed 0 = 2 ∧
      h.handed 0 ≤ max (h.consumers 0) 1 := by
  have hrun : sharedCalls.foldlM (fun h call => some (h.next call)) new =
      some (sharedCalls.foldl LeaseHistory.next new) := rfl
  have hreach : machine.Reachable (sharedCalls.foldl LeaseHistory.next new) :=
    (Machine.Reachable.of_init rfl).foldlM hrun
  exact ⟨_, hreach, by decide +kernel, by decide +kernel,
    (lease_batches_all_or_nothing (V := Unit) hreach).2.1 0⟩

end LeaseHistory

end OrbitKV
