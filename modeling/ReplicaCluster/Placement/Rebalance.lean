import ReplicaCluster.Placement.Load

/-!
# Rebalancing

The target placement of existing partitions over a set of members, in two passes.

The first pass keeps replicas: in the order of the partitions and of the ranks within each, a
replica stays if its member is in the set and has less than its fair share so far.  The second
pass fills each partition up to the replication factor, always from the member with the fewest
replicas; among those a present host of the partition goes first, then the order of the names
decides.

Replicas that were there rank first, in their previous order, so a partition changes its leader
only if the leader has to go.
-/

namespace ReplicaCluster

namespace Placement

/-- Decides on one present replica: it is kept while the partition needs it and the member is
below its fair share. -/
def keepReplica (replicationFactor fairShare : Nat) (s : Load × List MemberId)
    (member : MemberId) : Load × List MemberId :=
  match s.1[member]? with
  | some count =>
      if s.2.length < replicationFactor ∧ count < fairShare then
        (s.1.increment member, s.2 ++ [member])
      else s
  -- A member outside the set has no load and keeps nothing.
  | none => s

/-- The first pass: the replicas that stay, partition by partition, and the load they make. -/
def keep (replicationFactor fairShare : Nat) :
    List (PartitionId × Priorities) → Load → List (PartitionId × Priorities × List MemberId) × Load
  | [], load => ([], load)
  | (partition, present) :: rest, load =>
      let (load, kept) :=
        present.ranked.foldl (keepReplica replicationFactor fairShare) (load, [])
      let (others, load) := keep replicationFactor fairShare rest load
      ((partition, present, kept) :: others, load)

/-- Ranks the chosen hosts: those that were there first, in their previous order. -/
def rank (present : Priorities) (chosen : List MemberId) : Priorities :=
  .descending <|
    present.ranked.filter chosen.contains ++ chosen.filter fun m => !present.contains m

/-- The second pass: every partition with all its hosts. -/
def fillAll (replicationFactor : Nat) :
    List (PartitionId × Priorities × List MemberId) → Load → List (PartitionId × Priorities)
  | [], _ => []
  | (partition, present, kept) :: rest, load =>
      let (load, chosen) := Load.fill present (replicationFactor - kept.length) load kept
      (partition, rank present chosen) :: fillAll replicationFactor rest load

/-- The target placement of the partitions of `current` over `members`.  It has as many replicas
of each as the replication factor says if there are that many distinct members. -/
def rebalance (current : Placement) (members : List MemberId) (replicationFactor : Nat) :
    Placement :=
  if members.isEmpty then ∅
  else
    let fairShare := current.size * replicationFactor / members.length
    let (kept, load) := keep replicationFactor fairShare current.toList (.idle members)
    .ofList (fillAll replicationFactor kept load)

end Placement

end ReplicaCluster
