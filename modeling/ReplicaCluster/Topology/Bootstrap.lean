import ReplicaCluster.Placement.RoundRobin
import ReplicaCluster.Topology.Ledger

/-!
# Bootstrap and the placement of a topology

The first topology of a cluster, and the way back from a topology to the placement of its
partitions.
-/

namespace ReplicaCluster

namespace Topology

/-- An initialized topology whose members serve partitions `1` to `partitionCount`, placed
round-robin over the members in the order of their names. -/
def bootstrap (members : List MemberId) (partitionCount replicationFactor : Nat) :
    Except Failure Topology :=
  let members := sortDistinct members
  if members.isEmpty then refuse .noInitialMembers
  else if replicationFactor = 0 ∨ members.length < replicationFactor then
    refuse (.replicationFactorOutOfRange replicationFactor members.length)
  else
    let placement := Placement.roundRobin members partitionCount replicationFactor
    let hosted (id : MemberId) : SortedMap PartitionId Replica :=
      placement.filterMap fun _ priorities => priorities[id]?.map Replica.active
    .ok (members.foldl (fun t id => t.addMember id (.active (hosted id))) .initial)

/-- The priorities of a partition's replicas. -/
def priorities (t : Topology) (partition : PartitionId) : Priorities :=
  (t.replicas partition).map fun _ r => r.priority

/-- Where each partition is. -/
def placement (t : Topology) : Placement :=
  .ofList (t.partitions.map fun p => (p, t.priorities p))

end Topology

end ReplicaCluster
