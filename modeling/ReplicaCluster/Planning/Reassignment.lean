import ReplicaCluster.Placement.Rebalance
import ReplicaCluster.Planning.Planner

/-!
# Reassigning partitions and resizing the cluster

The plan that moves the partitions onto a set of members: first all joins, then all changes of
priority, then all departures, so that no partition ever has fewer replicas than it starts or
ends with.  Resizing wraps this between the joins of new members and the departure of those that
are not wanted.
-/

namespace ReplicaCluster

namespace Planner

/-- The joins that a partition's target asks for. -/
def joins (partition : PartitionId) (present target : Priorities) : List Operation :=
  target.toList.filterMap fun (m, priority) =>
    if present.contains m then none else some ⟨m, .joinPartition partition priority⟩

/-- The new priorities that a partition's target asks for. -/
def promotions (partition : PartitionId) (present target : Priorities) : List Operation :=
  target.toList.filterMap fun (m, priority) =>
    match present[m]? with
    | some old => if old = priority then none else some ⟨m, .setPriority partition priority⟩
    | none => none

/-- The departures that a partition's target asks for. -/
def departures (partition : PartitionId) (present target : Priorities) : List Operation :=
  (present.keys.filter fun m => !target.contains m).map (⟨·, .leavePartition partition⟩)

/-- The operations that turn one placement of the same partitions into another. -/
def moves (current target : Placement) : List Operation :=
  let each (f : PartitionId → Priorities → Priorities → List Operation) :=
    target.toList.flatMap fun (p, hosts) => f p (current.getD p ∅) hosts
  each joins ++ each promotions ++ each departures

/-- Spreads the partitions over the members, which are taken as known. -/
def spread (members : List MemberId) (replicationFactor : Nat) : Planner := fun t =>
  if replicationFactor = 0 then refuse .zeroReplicationFactor
  else if members.length < replicationFactor then
    refuse (.tooFewMembers members.length replicationFactor)
  else
    let current := t.placement
    .ok (moves current (current.rebalance members replicationFactor))

/-- Spreads the partitions over members of the cluster. -/
def reassign (members : List MemberId) (replicationFactor : Nat) : Planner := fun t =>
  let members := sortDistinct members
  match members.find? fun m => !t.hasMember m with
  | some unknown => refuse (.reassignToUnknown unknown)
  | none => spread members replicationFactor t

/-- Makes the cluster consist of exactly the given members. -/
def scale (members : List MemberId) (replicationFactor : Nat) : Planner := fun t =>
  let desired := sortDistinct members
  if desired.isEmpty then refuse .scaleToNothing
  else do
    let moved ← spread desired replicationFactor t
    let newcomers := desired.filter fun m => !t.hasMember m
    let unwanted := t.members.keys.filter fun m => !desired.contains m
    return newcomers.map (⟨·, .joinCluster⟩) ++ moved ++ unwanted.map (⟨·, .leaveCluster⟩)

end Planner

end ReplicaCluster
