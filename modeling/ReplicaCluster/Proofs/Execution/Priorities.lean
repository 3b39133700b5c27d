import ReplicaCluster.Proofs.Execution.Overtaken
import ReplicaCluster.Proofs.Placement.Priorities
import ReplicaCluster.Proofs.Topology.Ledger

/-!
# Where the priorities of replicas come from

A write gives replicas no priorities but those that its operation names: the one that a member joins
with or is promoted to, or the ranks of the new hosts of an overwriting.  All others are kept.
-/

namespace ReplicaCluster

/-- The update gives a replica of the partition this priority. -/
def Update.Grants (u : Update) (p : PartitionId) (priority : Priority) : Prop :=
  match u with
  | .replicaJoining q granted | .replicaPriority q granted => q = p ∧ granted = priority
  | .overwriteReplicas q priorities => q = p ∧ ∃ id : MemberId, priorities[id]? = some priority
  | _ => False

/-- The operation gives a replica of the partition this priority. -/
def Operation.Grants (op : Operation) (p : PartitionId) (priority : Priority) : Prop :=
  match op.action with
  | .joinPartition q granted | .setPriority q granted => q = p ∧ granted = priority
  | .overwriteHosts q hosts =>
      q = p ∧ ∃ id : MemberId, (Priorities.descending hosts)[id]? = some priority
  | _ => False

/-- The writes of an operation grant what the operation grants. -/
theorem Ready.grants {settings : Settings} {t : Topology} {op : Operation} {prepared : Prepared}
    {p : PartitionId} {priority : Priority} (ready : Ready settings t op prepared)
    (h : prepared.inProgress.Grants p priority ∨ prepared.confirmed.Grants p priority) :
    op.Grants p priority := by
  cases ready with
  | joinPartition active filling others => simpa [Update.Grants, Operation.Grants] using h
  | setPriority active hosted serving => simpa [Update.Grants, Operation.Grants] using h
  | overwriteHosts coordinator nonempty nodup known =>
      simpa [Update.Grants, Operation.Grants] using h
  | _ => simp [Update.Grants] at h

variable {t : Topology} {u : Update} {m id : MemberId} {p : PartitionId} {r : Replica}

/-! ## One write -/

/-- After an update a replica has the priority that it had, or one that the update grants. -/
theorem Update.priority_apply (h : (u.apply m t).replica? id p = some r) :
    (∃ r', t.replica? id p = some r' ∧ r'.priority = r.priority) ∨ u.Grants p r.priority := by
  rcases u.origin_of_apply h with ⟨r', hr', hsame | rfl⟩ | hjoins | ⟨priorities, rfl, hpriority⟩
  · exact Or.inl ⟨r', hr', hsame⟩
  · exact Or.inr ⟨rfl, rfl⟩
  · right
    rw [hjoins]
    exact ⟨rfl, rfl⟩
  · exact Or.inr ⟨rfl, id, hpriority⟩

/-! ## Positive priorities -/

/-- The operation gives no replica of the partition a priority below 1. -/
def Operation.Positive (p : PartitionId) (op : Operation) : Prop :=
  ∀ priority, op.Grants p priority → 1 ≤ priority

/-- No replica of the partition has a priority below 1, nor will the pending change give it one. -/
structure Topology.Positive (p : PartitionId) (t : Topology) : Prop where
  replicas : ∀ id r, t.replica? id p = some r → 1 ≤ r.priority
  pending : ∀ c, t.pending = some c → ∀ op ∈ c.remaining, op.Positive p

theorem Topology.Positive.replicas_apply (h : t.Positive p)
    (granted : ∀ priority, u.Grants p priority → 1 ≤ priority) :
    ∀ id r, (u.apply m t).replica? id p = some r → 1 ≤ r.priority := by
  intro id r hr
  rcases u.priority_apply hr with ⟨r', hr', hsame⟩ | hgrants
  · rw [← hsame]
    exact h.replicas id r' hr'
  · exact granted _ hgrants

end ReplicaCluster
