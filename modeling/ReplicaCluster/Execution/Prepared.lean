import ReplicaCluster.Execution.Call
import ReplicaCluster.Execution.Settings
import ReplicaCluster.Topology.Bootstrap

/-!
# Preparing an operation

Before an operation runs it is checked against the topology it will run on.  What comes out is
all that its execution needs: the update that marks it as under way, the call on its member, and
the update that confirms it.  An operation that is already under way passes the check again with
the same outcome, so an interrupted execution can be resumed.
-/

namespace ReplicaCluster

/-- An operation that has been checked and may run. -/
structure Prepared where
  inProgress : Update
  call : Call
  confirmed : Update
  deriving DecidableEq

namespace Operation

/-- The state of a member that must be known. -/
def knownMember (t : Topology) (member : MemberId) : Except Failure Member :=
  match t.member? member with
  | some m => .ok m
  | none => refuse (.unknownMember member)

/-- The state of a member that must take part in the cluster. -/
def activeMember (t : Topology) (member : MemberId) : Except Failure Member := do
  let m ← knownMember t member
  if m.isActive then return m else refuse (.memberNotActive member)

/-- Checks that every new host of a partition is known and not about to leave. -/
def checkHosts (t : Topology) : List MemberId → Except Failure Unit
  | [] => .ok ()
  | host :: rest => do
      let m ← knownMember t host
      if m.status = .leaving then refuse (.memberLeaving host) else checkHosts t rest

/-- A member may join unless it already takes part. -/
def prepareJoinCluster (member : MemberId) (t : Topology) : Except Failure Prepared :=
  let prepared : Prepared := ⟨.memberJoining, .addMember member, .memberActive⟩
  match t.member? member with
  | some m => if m.status = .joining then .ok prepared else refuse (.alreadyMember member)
  | none => .ok prepared

/-- A member may leave once it hosts nothing. -/
def prepareLeaveCluster (member : MemberId) (t : Topology) : Except Failure Prepared := do
  let m ← knownMember t member
  if m.status = .joining then refuse (.stillJoining member)
  else if m.replicas.isEmpty then
    return ⟨.memberLeaving, .removeMember member, .memberRemoved⟩
  else refuse (.stillHosts member m.replicas.keys)

/-- An active member may join a partition that has another host to copy from. -/
def prepareJoinPartition (member : MemberId) (p : PartitionId) (priority : Priority)
    (t : Topology) : Except Failure Prepared := do
  let m ← activeMember t member
  if (m.replica? p).any fun r => r.status ≠ .joining then refuse (.alreadyHosts member p)
  else
    let others := (t.priorities p).erase member
    if others.isEmpty then refuse (.nothingToJoin p)
    else
      return ⟨.replicaJoining p priority, .join member p (others.insert member priority),
        .replicaActive p⟩

/-- An active member may leave a partition that keeps enough hosts. -/
def prepareLeavePartition (settings : Settings) (member : MemberId) (p : PartitionId)
    (t : Topology) : Except Failure Prepared := do
  let m ← activeMember t member
  if m.hosts p then
    let remaining := t.replicaCount p - 1
    if remaining < settings.floor then
      refuse (.belowReplicationFactor p remaining settings.floor)
    else return ⟨.replicaLeaving p, .leave member p, .replicaRemoved p⟩
  else refuse (.doesNotHost member p)

/-- The priority of a serving replica on an active member may change. -/
def prepareSetPriority (member : MemberId) (p : PartitionId) (priority : Priority)
    (t : Topology) : Except Failure Prepared := do
  let m ← activeMember t member
  match m.replica? p with
  | some r =>
      if r.status = .active then
        return ⟨.unchanged, .setPriority member p priority, .replicaPriority p priority⟩
      else refuse (.replicaNotActive p member)
  | none => refuse (.doesNotHost member p)

/-- The coordinator may give a partition new hosts: some, each of them once, all known and none
about to leave. -/
def prepareOverwriteHosts (settings : Settings) (member : MemberId) (p : PartitionId)
    (hosts : List MemberId) (t : Topology) : Except Failure Prepared :=
  if settings.coordinator ≠ some member then refuse (.notCoordinator member p)
  else if hosts.isEmpty then refuse (.noHostsGiven p)
  else if ¬ hosts.Nodup then refuse (.duplicateHosts p)
  else do
    checkHosts t hosts
    let priorities := Priorities.descending hosts
    return ⟨.unchanged, .overwriteHosts member p priorities, .overwriteReplicas p priorities⟩

/-- A host may be declared an owner of its partition, whatever its status. -/
def prepareForceReconfigure (member : MemberId) (p : PartitionId) (bootstrap : Bool)
    (t : Topology) : Except Failure Prepared := do
  let m ← knownMember t member
  if m.hosts p then
    return ⟨.unchanged, .forceReconfigure member p (t.replicas p).keys bootstrap,
      .replicaActive p⟩
  else refuse (.doesNotHost member p)

/-- Checks an operation against the topology it will run on. -/
def prepare (settings : Settings) (op : Operation) (t : Topology) : Except Failure Prepared :=
  match op.action with
  | .joinCluster => prepareJoinCluster op.member t
  | .leaveCluster => prepareLeaveCluster op.member t
  | .joinPartition p priority => prepareJoinPartition op.member p priority t
  | .leavePartition p => prepareLeavePartition settings op.member p t
  | .setPriority p priority => prepareSetPriority op.member p priority t
  | .overwriteHosts p hosts => prepareOverwriteHosts settings op.member p hosts t
  | .forceReconfigure p bootstrap => prepareForceReconfigure op.member p bootstrap t

end Operation

end ReplicaCluster
