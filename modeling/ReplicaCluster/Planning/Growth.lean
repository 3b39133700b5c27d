import ReplicaCluster.Placement.Load
import ReplicaCluster.Planning.Planner

/-!
# Adding members

The plan that adds members: they join the cluster, and then take over what is missing.  A
partition below the replication factor gets new replicas on the new members with the fewest
replicas.  New replicas rank below all present ones as far as priorities go down to 1.
-/

namespace ReplicaCluster

namespace Planner

/-- The priority of new replicas: one below the lowest present one, but never below 1. -/
def newcomerPriority (present : Priorities) : Priority :=
  max ((present.values.min?.getD 1) - 1) 1

/-- The joins that complete the given partitions, in their order, under the load that the new
members have so far. -/
def completePartitions (t : Topology) (replicationFactor : Nat) :
    List PartitionId → Load → List Operation
  | [], _ => []
  | p :: rest, load =>
      let present := t.priorities p
      let (load, hosts) := Load.fill ∅ (replicationFactor - present.size) load []
      hosts.map (⟨·, .joinPartition p (newcomerPriority present)⟩) ++
        completePartitions t replicationFactor rest load

/-- Adds the members that the cluster does not have yet. -/
def addMembers (members : List MemberId) (replicationFactor : Nat) : Planner := fun t =>
  let newcomers := (sortDistinct members).filter fun m => !t.hasMember m
  if newcomers.isEmpty then .ok []
  else
    .ok <| newcomers.map (⟨·, .joinCluster⟩) ++
      completePartitions t replicationFactor t.partitions (.idle newcomers)

end Planner

end ReplicaCluster
