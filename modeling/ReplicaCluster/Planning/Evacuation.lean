import ReplicaCluster.Placement.Load
import ReplicaCluster.Planning.Planner

/-!
# Removing members

The plan that removes members.  Each removed member hands over its replicas one by one: if the
partition would fall below the replication factor, the remaining member with the fewest replicas
joins it first and takes over the priority.  When the member hosts nothing any more it leaves.
-/

namespace ReplicaCluster

namespace Placement

/-- The partitions that a member hosts, in ascending order. -/
def hostedBy (placement : Placement) (member : MemberId) : List PartitionId :=
  (placement.filter fun _ hosts => hosts.contains member).keys

end Placement

namespace Planner

/-- A plan in the making: where the partitions will be, and the operations so far. -/
structure Draft where
  placement : Placement
  operations : List Operation

/-- Moves one partition off a member. -/
def evacuatePartition (survivors : List MemberId) (replicationFactor : Nat) (member : MemberId)
    (d : Draft) (partition : PartitionId) : Except Failure Draft :=
  match d.placement[partition]? with
  | none => .ok d
  | some hosts =>
      match hosts[member]? with
      | none => .ok d
      | some priority =>
          let remaining := hosts.size - 1
          let leave : Operation := ⟨member, .leavePartition partition⟩
          if remaining < replicationFactor then
            let load := Load.ofPlacement survivors d.placement
            match load.nextHost? ∅ hosts.keys with
            | none => refuse (.noReplacement member partition remaining replicationFactor)
            | some replacement =>
                -- The replacement joins before the member leaves, so the floor is never broken.
                let moved := (hosts.insert replacement priority).erase member
                .ok ⟨d.placement.insert partition moved,
                  d.operations ++ [⟨replacement, .joinPartition partition priority⟩, leave]⟩
          else
            .ok ⟨d.placement.insert partition (hosts.erase member), d.operations ++ [leave]⟩

/-- Moves everything off a member and lets it leave. -/
def evacuateMember (survivors : List MemberId) (replicationFactor : Nat) (d : Draft)
    (member : MemberId) : Except Failure Draft := do
  let emptied ← (d.placement.hostedBy member).foldlM
    (evacuatePartition survivors replicationFactor member) d
  return { emptied with operations := emptied.operations ++ [⟨member, .leaveCluster⟩] }

/-- Removes the members that the cluster has. -/
def removeMembers (members : List MemberId) (replicationFactor : Nat) : Planner := fun t => do
  let removed := (sortDistinct members).filter t.hasMember
  let survivors := (t.members.filter fun id m => !members.contains id && m.isActive).keys
  let draft ← removed.foldlM (evacuateMember survivors replicationFactor) ⟨t.placement, []⟩
  return draft.operations

end Planner

end ReplicaCluster
