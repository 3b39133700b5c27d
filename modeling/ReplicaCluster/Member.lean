import ReplicaCluster.SortedMap

/-!
# Members and the replicas they host

A member is one node of the cluster.  It has a version counter, a status, and the replicas it
hosts, by partition.  Every change of a member yields a new value whose version is one higher;
a change that names a replica the member does not host is no change.
-/

namespace ReplicaCluster

/-- The name of a cluster member; any text. -/
abbrev MemberId := String

abbrev PartitionId := Nat

/-- The rank of a replica in the choice of a leader; higher wins. -/
abbrev Priority := Nat

/-- The member whose name is a number in decimal digits. -/
def MemberId.ofNumber (n : Nat) : MemberId := toString n

/-- The stage that a member or a replica is in. -/
inductive Status
  | joining
  | active
  | leaving
  deriving DecidableEq, Repr, Inhabited

/-- The word for a status in texts that people read. -/
def Status.label : Status → String
  | .joining => "Joining"
  | .active => "Active"
  | .leaving => "Leaving"

/-- One copy of a partition on one member. -/
structure Replica where
  status : Status
  priority : Priority
  deriving DecidableEq, Repr, Inhabited

/-- A copy that serves. -/
def Replica.active (priority : Priority) : Replica := ⟨.active, priority⟩

/-- A copy that is being filled. -/
def Replica.joining (priority : Priority) : Replica := ⟨.joining, priority⟩

/-- One node of the cluster. -/
structure Member where
  version : Nat
  status : Status
  replicas : SortedMap PartitionId Replica
  deriving DecidableEq, Inhabited

namespace Member

/-- A serving member that hosts the given replicas. -/
def active (replicas : SortedMap PartitionId Replica) : Member := ⟨0, .active, replicas⟩

/-- A member that is about to join and hosts nothing yet. -/
def joining : Member := ⟨0, .joining, ∅⟩

/-- Whether the member takes part in the cluster, neither joining nor leaving it. -/
def isActive (m : Member) : Bool := m.status = .active

/-- Whether the member has a replica of the partition, whatever its status. -/
def hosts (m : Member) (partition : PartitionId) : Bool := m.replicas.contains partition

def replica? (m : Member) (partition : PartitionId) : Option Replica := m.replicas[partition]?

def withStatus (m : Member) (status : Status) : Member :=
  { m with version := m.version + 1, status }

/-- Hosts the partition in the given state, whether or not it was hosted before. -/
def withReplica (m : Member) (partition : PartitionId) (replica : Replica) : Member :=
  { m with version := m.version + 1, replicas := m.replicas.insert partition replica }

/-- Revises the replica of a hosted partition. -/
def modifyReplica (m : Member) (partition : PartitionId) (f : Replica → Replica) : Member :=
  match m.replica? partition with
  | some replica => m.withReplica partition (f replica)
  | none => m

/-- Hosts the partition no longer. -/
def withoutReplica (m : Member) (partition : PartitionId) : Member :=
  if m.hosts partition then
    { m with version := m.version + 1, replicas := m.replicas.erase partition }
  else m

/-- Hosts the partition with a serving replica of the given priority, or no longer. -/
def overwriteReplica (m : Member) (partition : PartitionId) : Option Priority → Member
  | some priority => m.withReplica partition (.active priority)
  | none => m.withoutReplica partition

end Member

end ReplicaCluster
