import ReplicaCluster.Planning.Planner

/-!
# Recovery after the loss of members

The plan that drops members without their cooperation.  They are taken out of the topology at
once.  Then the hosts that each partition has left are declared its owners one after the other,
in the order of their names; the last of them starts the partition from its own data.
-/

namespace ReplicaCluster

/-- A recovery plan. -/
structure Recovery where
  /-- The topology without the dropped members, on which the operations run. -/
  topology : Topology
  operations : List Operation
  /-- The partitions of which no host is left, in ascending order. -/
  lost : List PartitionId
  deriving DecidableEq

namespace Recovery

/-- The operations that declare the hosts of a partition its owners. -/
def declareOwners (partition : PartitionId) : List MemberId → List Operation
  | [] => []
  | [last] => [⟨last, .forceReconfigure partition true⟩]
  | host :: rest => ⟨host, .forceReconfigure partition false⟩ :: declareOwners partition rest

/-- Plans to drop the members that the cluster has; some member has to remain. -/
def plan (members : List MemberId) (t : Topology) : Except Failure Recovery :=
  let removed := (sortDistinct members).filter t.hasMember
  if removed.isEmpty then refuse .removesNoKnownMember
  else if removed.length = t.members.size then refuse .removesEveryMember
  else
    let reduced := removed.foldl Topology.removeMember t
    let owners (p : PartitionId) := (reduced.replicas p).keys
    .ok {
      topology := reduced
      operations := t.partitions.flatMap fun p => declareOwners p (owners p)
      lost := t.partitions.filter fun p => (owners p).isEmpty }

end Recovery

end ReplicaCluster
