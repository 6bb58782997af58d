import OrbitKV.Lib.OrderedMap
import OrbitKV.State.Record

/-!
# The membership view

An instant is a natural number of nanoseconds, and each call that reads the clock takes the instant
it reads.
-/

namespace OrbitKV

open Std

def instantBound : Nat := 2 ^ 63 * 10 ^ 9

def instantAdd (instant duration : Nat) : Option Nat :=
  if instant + duration < instantBound then some (instant + duration) else none

theorem eq_of_instantAdd {instant duration later : Nat}
    (hadd : instantAdd instant duration = some later) : later = instant + duration := by
  unfold instantAdd at hadd
  split at hadd
  · exact (Option.some.inj hadd).symm
  · cases hadd

/-- `MembershipView` with the state its lock protects. A member is filed under its own
incarnation. -/
structure MembershipView where
  owner : CacheOwner
  members : ExtTreeMap Uuid CacheOwner
  ready : Bool
  validUntil : Option Nat
  fenced : Bool
  filed : ∀ (incarnation : Uuid) (member : CacheOwner), members[incarnation]? = some member →
    member.incarnation = incarnation

namespace MembershipView

def new (owner : CacheOwner) : MembershipView where
  owner := owner
  members := ∅
  ready := false
  validUntil := none
  fenced := false
  filed := by simp

variable (membership : MembershipView)

/-- `valid_until.is_none_or(|until| now >= until)`. -/
def expired (now : Nat) : Bool :=
  membership.validUntil.all (· ≤ now)

def resolve (now : Nat) (incarnation : Uuid) : Option CacheOwner :=
  if membership.fenced || !membership.ready || membership.expired now then
    none
  else
    membership.members[incarnation]?

def renew (now sentAt ttl : Nat) : Bool × MembershipView :=
  let deadline := instantAdd sentAt (ttl / 2)
  if membership.fenced || membership.validUntil.any (· ≤ now) || deadline.all (· ≤ now) then
    (false, { membership with fenced := true })
  else
    (true, { membership with validUntil := deadline })

/-- The members of a snapshot, filed by incarnation; a later entry replaces an earlier one. -/
def memberMap (owners : List CacheOwner) : ExtTreeMap Uuid CacheOwner :=
  owners.foldl (fun members owner => members.insert owner.incarnation owner) ∅

theorem memberMap_filed (owners : List CacheOwner) (incarnation : Uuid) (member : CacheOwner)
    (hmember : (memberMap owners)[incarnation]? = some member) :
    member.incarnation = incarnation := by
  suffices hfold : ∀ members : ExtTreeMap Uuid CacheOwner,
      (∀ (id : Uuid) (m : CacheOwner), members[id]? = some m → m.incarnation = id) →
      ∀ (id : Uuid) (m : CacheOwner), (owners.foldl (fun members owner =>
        members.insert owner.incarnation owner) members)[id]? = some m → m.incarnation = id from
    hfold ∅ (by simp) incarnation member hmember
  clear hmember
  induction owners with
  | nil => exact fun members hmembers => hmembers
  | cons owner rest ih =>
    intro members hmembers
    refine ih _ fun id m hm => ?_
    obtain ⟨rfl, rfl⟩ | ⟨-, hold⟩ := getElem?_insert_eq_some hm
    · rfl
    · exact hmembers id m hold

def replaceMembers (members : List (String × CacheOwner)) : MembershipView :=
  let filed := memberMap (members.map (·.2))
  { membership with
    members := filed
    ready := true
    fenced := membership.fenced || filed[membership.owner.incarnation]? ≠ some membership.owner
    filed := memberMap_filed _ }

def invalidateSnapshot : MembershipView :=
  { membership with ready := false, members := ∅, filed := by simp }

def fence : MembershipView :=
  { membership with fenced := true }

def registrationValid (now : Nat) : Bool :=
  !membership.fenced && membership.validUntil.any (now < ·)

def permits (now : Nat) (owner : CacheOwner) : Bool :=
  !membership.fenced && membership.ready && !membership.expired now &&
    membership.members[owner.incarnation]? = some owner

theorem incarnation_of_resolve {membership : MembershipView} {now : Nat} {incarnation : Uuid}
    {member : CacheOwner} (hresolve : membership.resolve now incarnation = some member) :
    member.incarnation = incarnation := by
  unfold resolve at hresolve
  split at hresolve
  · cases hresolve
  · exact membership.filed _ _ hresolve

end MembershipView

end OrbitKV
