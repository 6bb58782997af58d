import OrbitKV.State.Record

/-!
# Replicas of a key

A row has at most one replica of each peer on a medium; the ways to build one keep to that.
-/

namespace OrbitKV

open List

/-- `Evidence`; what local evidence refers to is not looked at here. -/
inductive Evidence where
  | memory
  | extent
  | peer (location : ReplicaLocation)
  deriving DecidableEq, Repr

structure ReplicaCandidate where
  medium : ReplicaMedium
  evidence : Evidence
  deriving DecidableEq, Repr

namespace ReplicaCandidate

def isPeer (candidate : ReplicaCandidate) : Bool :=
  match candidate.evidence with
  | .peer _ => true
  | _ => false

def peer (medium : ReplicaMedium) (candidate : ReplicaCandidate) : Option ReplicaLocation :=
  match candidate.evidence with
  | .peer location => if candidate.medium = medium then some location else none
  | _ => none

def isNotOf (owner : CacheOwner) (candidate : ReplicaCandidate) : Bool :=
  match candidate.evidence with
  | .peer location => location.owner ≠ owner
  | _ => true

end ReplicaCandidate

def peersOn (medium : ReplicaMedium) (replicas : List ReplicaCandidate) : List ReplicaLocation :=
  replicas.filterMap (·.peer medium)

def DistinctPeers (replicas : List ReplicaCandidate) : Prop :=
  ∀ medium, (peersOn medium replicas).Pairwise fun first second => first.owner ≠ second.owner

structure ReplicaSet where
  key : StateKey
  replicas : List ReplicaCandidate
  distinct : DistinctPeers replicas

theorem DistinctPeers.sublist {replicas kept : List ReplicaCandidate}
    (hdistinct : DistinctPeers replicas) (hkept : kept.Sublist replicas) : DistinctPeers kept :=
  fun medium => (hdistinct medium).sublist (hkept.filterMap _)

theorem DistinctPeers.concat {replicas : List ReplicaCandidate} {candidate : ReplicaCandidate}
    (hdistinct : DistinctPeers replicas)
    (hnew : ∀ medium location, candidate.peer medium = some location →
      ∀ known ∈ peersOn medium replicas, known.owner ≠ location.owner) :
    DistinctPeers (replicas ++ [candidate]) := by
  intro medium
  rw [peersOn, filterMap_append, pairwise_append]
  refine ⟨hdistinct medium, ?_, ?_⟩
  · cases hpeer : candidate.peer medium with
    | none => simp [hpeer]
    | some location => simp [hpeer]
  · intro known hknown location hlocation
    obtain ⟨_, hmem, hpeer⟩ := List.mem_filterMap.mp hlocation
    rw [List.mem_singleton.mp hmem] at hpeer
    exact hnew medium location hpeer known hknown

namespace ReplicaSet

def new (key : StateKey) : ReplicaSet where
  key := key
  replicas := []
  distinct _ := .nil

variable (owner : CacheOwner) (row : ReplicaSet) (medium : ReplicaMedium)

/-- `peer`: the replicas of peers on a medium. -/
def peer : List ReplicaLocation :=
  peersOn medium row.replicas

def addPeer (location : ReplicaLocation) : ReplicaSet :=
  if hroom : (row.peer location.metadata.medium).length < discoveryMaxReplicasPerMedium ∧
      ¬(row.peer location.metadata.medium).any (·.owner = location.owner) then
    { key := row.key
      replicas := row.replicas ++ [⟨location.metadata.medium, .peer location⟩]
      distinct := by
        apply row.distinct.concat
        intro medium found hpeer known hknown
        obtain ⟨rfl, rfl⟩ : location.metadata.medium = medium ∧ location = found := by
          simpa [ReplicaCandidate.peer] using hpeer
        have hnone := hroom.2
        rw [any_eq_true] at hnone
        exact fun heq => hnone ⟨known, hknown, decide_eq_true heq⟩ }
  else row

def setPeers (replicas : List ReplicaLocation) : ReplicaSet :=
  (replicas.filter (·.metadata.medium.isStored)).foldl addPeer
    { row with
      replicas := row.replicas.filter (!·.isPeer)
      distinct := row.distinct.sublist filter_sublist }

def rejectPeer : ReplicaSet where
  key := row.key
  replicas := row.replicas.filter (·.isNotOf owner)
  distinct := row.distinct.sublist filter_sublist

def covers (owner : CacheOwner) (row : ReplicaSet) : Bool :=
  (row.peer medium).any (·.owner = owner)

def replicaOf (owner : CacheOwner) (row : ReplicaSet) : Option ReplicaLocation :=
  (row.peer medium).find? (·.owner = owner)

theorem peer_rejectPeer :
    (row.rejectPeer owner).peer medium = (row.peer medium).filter (·.owner ≠ owner) := by
  rw [peer, peer, rejectPeer, peersOn, peersOn, filter_filterMap, filterMap_filter]
  congr 1
  funext candidate
  unfold ReplicaCandidate.isNotOf ReplicaCandidate.peer
  cases candidate.evidence with
  | memory => rfl
  | extent => rfl
  | peer location =>
    by_cases hmedium : candidate.medium = medium
    · simp [hmedium, Option.filter_some]
    · simp [hmedium]

theorem covers_rejectPeer (other : CacheOwner) (row : ReplicaSet) (medium : ReplicaMedium) :
    (row.rejectPeer owner).covers medium other = (row.covers medium other && other ≠ owner) := by
  rw [covers, peer_rejectPeer, any_filter, covers, Bool.eq_iff_iff, Bool.and_eq_true,
    any_eq_true, any_eq_true]
  constructor
  · rintro ⟨location, hmem, hlocation⟩
    grind
  · rintro ⟨⟨location, hmem, hother⟩, hne⟩
    grind

theorem isSome_replicaOf (owner : CacheOwner) (row : ReplicaSet) :
    (row.replicaOf medium owner).isSome = row.covers medium owner := by
  rw [replicaOf, covers, isSome_find?]

theorem replicaOf_eq_some {medium : ReplicaMedium} {owner : CacheOwner} {row : ReplicaSet}
    {replica : ReplicaLocation} (hreplica : row.replicaOf medium owner = some replica) :
    replica ∈ row.peer medium ∧ replica.owner = owner ∧
      ∀ other ∈ row.peer medium, other.owner = owner → other = replica := by
  have hmem := mem_of_find?_eq_some hreplica
  have howner : replica.owner = owner := by simpa using find?_some hreplica
  refine ⟨hmem, howner, fun other hother hsame => ?_⟩
  by_contra hne
  have hsymm : Std.Symm fun first second : ReplicaLocation => first.owner ≠ second.owner :=
    ⟨fun _ _ => Ne.symm⟩
  exact (row.distinct medium).forall hother hmem hne (hsame.trans howner.symm)

end ReplicaSet

end OrbitKV
