import ReplicaCluster.Planning.Intent
import ReplicaCluster.Planning.Recovery
import ReplicaCluster.Topology.Ledger

/-!
# Edits

Single revisions of members and topologies, as data.  A rehearsal uses them for all that other
parties do to the stored topology.
-/

namespace ReplicaCluster

/-- A revision of one member. -/
inductive MemberEdit
  | setStatus (status : Status)
  | putReplica (partition : PartitionId) (replica : Replica)
  /-- Sets what is given on a hosted replica. -/
  | modifyReplica (partition : PartitionId) (status : Option Status) (priority : Option Priority)
  | dropReplica (partition : PartitionId)
  deriving DecidableEq, Repr

/-- The member after an edit. -/
def MemberEdit.apply (m : Member) : MemberEdit → Member
  | .setStatus status => m.withStatus status
  | .putReplica p replica => m.withReplica p replica
  | .modifyReplica p status priority =>
      m.modifyReplica p fun r => ⟨status.getD r.status, priority.getD r.priority⟩
  | .dropReplica p => m.withoutReplica p

/-- A revision of a topology. -/
inductive Edit
  | set (topology : Topology)
  | addMember (member : MemberId) (state : Member)
  | removeMember (member : MemberId)
  | editMember (member : MemberId) (edits : List MemberEdit)
  | update (member : MemberId) (update : Update)
  | overwriteReplicas (partition : PartitionId) (priorities : Priorities)
  | startChange (operations : List Operation)
  /-- Plans on the topology and starts the change. -/
  | startIntent (intent : Intent)
  /-- Plans a recovery on the topology and starts it. -/
  | startRecovery (members : List MemberId)
  | advanceChange (member : MemberId) (update : Update)
  | cancelChange
  deriving DecidableEq

/-- The topology after an edit. -/
def Edit.apply (now : Int) (t : Topology) : Edit → Except Failure Topology
  | .set topology => .ok topology
  | .addMember id m => .ok (t.addMember id m)
  | .removeMember id => .ok (t.removeMember id)
  | .editMember id edits => .ok (t.modifyMember id fun m => edits.foldl MemberEdit.apply m)
  | .update id u => .ok (u.apply id t)
  | .overwriteReplicas p priorities => .ok (t.overwriteReplicas p priorities)
  | .startChange operations => t.startChange operations
  | .startIntent intent => do t.startChange (← intent.planner t)
  | .startRecovery members => do
      let recovery ← Recovery.plan members t
      recovery.topology.startChange recovery.operations
  | .advanceChange id u => t.advanceChange now id u
  | .cancelChange => .ok (t.cancelChange now)

end ReplicaCluster
