import ReplicaCluster.Topology

/-!
# State updates

An operation changes the topology twice: when it starts, to mark what is under way, and when its
member has confirmed it.  Both changes are described by updates.  An update is addressed to one
member; one that is addressed to a member or a replica that does not exist changes no member.
-/

namespace ReplicaCluster

/-- A change of the topology around one member. -/
inductive Update
  | unchanged
  /-- The member enters as joining, or turns back to joining. -/
  | memberJoining
  | memberActive
  | memberLeaving
  | memberRemoved
  /-- The member hosts the partition, with a replica that is being filled. -/
  | replicaJoining (partition : PartitionId) (priority : Priority)
  | replicaActive (partition : PartitionId)
  | replicaLeaving (partition : PartitionId)
  | replicaRemoved (partition : PartitionId)
  | replicaPriority (partition : PartitionId) (priority : Priority)
  /-- The partition gets these hosts and priorities, on all members of the cluster. -/
  | overwriteReplicas (partition : PartitionId) (priorities : SortedMap MemberId Priority)
  deriving DecidableEq

/-- The topology after an update addressed to `member`. -/
def Update.apply (u : Update) (member : MemberId) (t : Topology) : Topology :=
  let setReplica (partition : PartitionId) (f : Replica → Replica) :=
    t.modifyMember member (·.modifyReplica partition f)
  match u with
  | .unchanged => t
  | .memberJoining =>
      t.updateMember member fun
        | some m => some (m.withStatus .joining)
        | none => some Member.joining
  | .memberActive => t.modifyMember member (·.withStatus .active)
  | .memberLeaving => t.modifyMember member (·.withStatus .leaving)
  | .memberRemoved => t.removeMember member
  | .replicaJoining p priority => t.modifyMember member (·.withReplica p (.joining priority))
  | .replicaActive p => setReplica p fun r => { r with status := .active }
  | .replicaLeaving p => setReplica p fun r => { r with status := .leaving }
  | .replicaRemoved p => t.modifyMember member (·.withoutReplica p)
  | .replicaPriority p priority => setReplica p fun r => { r with priority }
  | .overwriteReplicas p priorities => t.overwriteReplicas p priorities

/-! ## What no update touches -/

@[simp] theorem Update.initialized_apply (u : Update) (member : MemberId) (t : Topology) :
    (u.apply member t).initialized = t.initialized := by
  cases u <;> rfl

@[simp] theorem Update.pending_apply (u : Update) (member : MemberId) (t : Topology) :
    (u.apply member t).pending = t.pending := by
  cases u <;> rfl

@[simp] theorem Update.lastChange_apply (u : Update) (member : MemberId) (t : Topology) :
    (u.apply member t).lastChange = t.lastChange := by
  cases u <;> rfl

end ReplicaCluster
