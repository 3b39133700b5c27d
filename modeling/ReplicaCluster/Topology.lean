import ReplicaCluster.Change

/-!
# The cluster topology

A topology is a snapshot of the whole cluster: its members with their replicas, the change in
progress, and the change that ended last.  Every revision yields a new snapshot with a higher
version, so that two equal snapshots of one history are the same moment of it; a conditional
write may therefore compare whole snapshots.

Versions and the numbers of changes are plain numbers here.  They are kept in 64 bits, and
`Topology.Room` says for how many more revisions these are enough.
-/

namespace ReplicaCluster

structure Topology where
  version : Nat
  initialized : Bool
  members : SortedMap MemberId Member
  pending : Option PendingChange
  lastChange : Option EndedChange
  deriving DecidableEq

namespace Topology

/-- What a cluster has before its first bootstrap. -/
def uninitialized : Topology := ⟨0, false, ∅, none, none⟩

/-- An initialized cluster without members. -/
def initial : Topology := ⟨1, true, ∅, none, none⟩

instance : Inhabited Topology := ⟨uninitialized⟩

/-! ## Views -/

def member? (t : Topology) (id : MemberId) : Option Member := t.members[id]?

/-- Whether the cluster has the member, whatever its status. -/
def hasMember (t : Topology) (id : MemberId) : Bool := t.members.contains id

/-- The operation that runs next. -/
def next? (t : Topology) : Option Operation := t.pending.bind (·.next?)

/-- Whether an operation remains to be run. -/
def hasPendingChange (t : Topology) : Bool := t.pending.any fun c => !c.remaining.isEmpty

/-- The partitions that some member hosts, in ascending order. -/
def partitions (t : Topology) : List PartitionId :=
  sortDistinct (t.members.values.flatMap fun m => m.replicas.keys)

/-- The replicas of a partition, by the members that host them. -/
def replicas (t : Topology) (partition : PartitionId) : SortedMap MemberId Replica :=
  t.members.filterMap fun _ m => m.replica? partition

/-- The number of members that host a partition, whatever the status of their replicas. -/
def replicaCount (t : Topology) (partition : PartitionId) : Nat :=
  t.members.values.countP fun m => m.hosts partition

/-! ## Revising members -/

/-- Revises one member; `none` stands for its absence, before and after.  The version goes up
even if nothing changes. -/
def updateMember (t : Topology) (id : MemberId) (f : Option Member → Option Member) : Topology :=
  { t with version := t.version + 1, members := t.members.alter id f }

/-- Puts a member into the cluster, in place of one of that name. -/
def addMember (t : Topology) (id : MemberId) (m : Member) : Topology :=
  t.updateMember id fun _ => some m

/-- Takes a member out of the cluster with all it hosts. -/
def removeMember (t : Topology) (id : MemberId) : Topology :=
  t.updateMember id fun _ => none

def modifyMember (t : Topology) (id : MemberId) (f : Member → Member) : Topology :=
  t.updateMember id (·.map f)

/-- Makes exactly the listed members, as far as the cluster has them, the hosts of a partition,
each with a serving replica of the listed priority. -/
def overwriteReplicas (t : Topology) (partition : PartitionId)
    (priorities : SortedMap MemberId Priority) : Topology :=
  { t with
    version := t.version + 1
    members := t.members.map fun id m => m.overwriteReplica partition priorities[id]? }

end Topology

end ReplicaCluster
