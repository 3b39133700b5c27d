import ReplicaCluster.Placement

/-!
# Calls on members

Behind every operation there is one call, by which the member that it names is told to act.
-/

namespace ReplicaCluster

/-- What a member, or the membership service, is told to do. -/
inductive Call
  | addMember (member : MemberId)
  | removeMember (member : MemberId)
  /-- Start to host a partition, among the listed hosts, the new one included. -/
  | join (member : MemberId) (partition : PartitionId) (hosts : Priorities)
  | leave (member : MemberId) (partition : PartitionId)
  | setPriority (member : MemberId) (partition : PartitionId) (priority : Priority)
  /-- Make the listed members the only hosts of a partition. -/
  | forceReconfigure (member : MemberId) (partition : PartitionId) (hosts : List MemberId)
      (bootstrap : Bool)
  | overwriteHosts (member : MemberId) (partition : PartitionId) (hosts : Priorities)
  deriving DecidableEq

/-- The kinds of calls. -/
inductive CallKind
  | addMember
  | removeMember
  | join
  | leave
  | setPriority
  | forceReconfigure
  | overwriteHosts
  deriving DecidableEq, Repr

/-- The kind of a call. -/
def Call.kind : Call → CallKind
  | .addMember .. => .addMember
  | .removeMember .. => .removeMember
  | .join .. => .join
  | .leave .. => .leave
  | .setPriority .. => .setPriority
  | .forceReconfigure .. => .forceReconfigure
  | .overwriteHosts .. => .overwriteHosts

end ReplicaCluster
