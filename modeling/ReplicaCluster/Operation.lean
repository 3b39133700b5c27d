import ReplicaCluster.Member

/-!
# Operations

A change of the cluster is a sequence of operations.  Each one runs on the member it names and
does one thing there.
-/

namespace ReplicaCluster

/-- What an operation does on its member. -/
inductive Action
  /-- The member becomes part of the cluster. -/
  | joinCluster
  /-- The member, which must host nothing, leaves the cluster. -/
  | leaveCluster
  | joinPartition (partition : PartitionId) (priority : Priority)
  | leavePartition (partition : PartitionId)
  /-- The member's replica gets another priority. -/
  | setPriority (partition : PartitionId) (priority : Priority)
  /-- The partition gets exactly these hosts, the first with the highest priority. -/
  | overwriteHosts (partition : PartitionId) (hosts : List MemberId)
  /-- The member's replica is declared alive after members were lost; one replica of each
  partition starts from its own data, and the others follow it. -/
  | forceReconfigure (partition : PartitionId) (bootstrap : Bool)
  deriving DecidableEq, Repr

/-- One step of a change. -/
structure Operation where
  member : MemberId
  action : Action
  deriving DecidableEq, Repr

/-- The partition that an action is about; the two actions on membership have none. -/
def Action.partition? : Action → Option PartitionId
  | .joinCluster | .leaveCluster => none
  | .joinPartition p _ | .leavePartition p | .setPriority p _ | .overwriteHosts p _
  | .forceReconfigure p _ => some p

namespace Operation

def partition? (op : Operation) : Option PartitionId := op.action.partition?

/-- The text by which messages and listings name an operation. -/
def text (op : Operation) : String :=
  let member := op.member
  match op.action with
  | .joinCluster => s!"MemberJoin({member})"
  | .leaveCluster => s!"MemberLeave({member})"
  | .joinPartition p priority => s!"PartitionJoin({member}, {p}, priority={priority})"
  | .leavePartition p => s!"PartitionLeave({member}, {p})"
  | .setPriority p priority =>
      s!"PartitionReconfigurePriority({member}, {p}, priority={priority})"
  | .overwriteHosts p hosts =>
      let list := ", ".intercalate hosts
      s!"PartitionOverwriteConfiguration({member}, {p}, [{list}])"
  | .forceReconfigure p bootstrap =>
      s!"ForcePartitionReconfigure({member}, {p}, bootstrap={bootstrap})"

end Operation

end ReplicaCluster
