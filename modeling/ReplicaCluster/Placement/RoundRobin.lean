import ReplicaCluster.Placement

/-!
# Round-robin placement

The placement of a new cluster: partitions are numbered from 1, and partition `p` goes to the
members that follow offset `p - 1` in the list, around its end, the first of them as leader.
-/

namespace ReplicaCluster

namespace Placement

/-- The `count` members that follow an offset, around the end of the ring. -/
def successors (ring : Array MemberId) (offset count : Nat) : List MemberId :=
  (List.range count).filterMap fun j => ring[(offset + j) % ring.size]?

/-- Spreads partitions `1` to `partitionCount` over the members, with as many replicas as the
replication factor says and as there are members. -/
def roundRobin (members : List MemberId) (partitionCount replicationFactor : Nat) : Placement :=
  if members.isEmpty then ∅
  else
    let ring := members.toArray
    .ofList <| (List.range partitionCount).map fun offset =>
      (offset + 1,
        Priorities.descending (successors ring offset (min replicationFactor ring.size)))

end Placement

end ReplicaCluster
