import ReplicaCluster.Proofs.Execution.Floor
import ReplicaCluster.Proofs.Topology.Bootstrap

/-!
# What the two writes of an operation leave of the serving replicas

A partition is served while one of its replicas is active.  The only write that may end that is
the one that marks a departure: the floor counts replicas of any status, so the others may all be
joining or leaving (`Ready.served_inProgress`).
-/

namespace ReplicaCluster

namespace Topology

variable {t t' : Topology} {p : PartitionId}

/-- Some replica of the partition is active. -/
def Served (t : Topology) (p : PartitionId) : Prop :=
  ∃ id r, t.replica? id p = some r ∧ r.status = .active

theorem served_iff_exists_mem_replicas :
    t.Served p ↔ ∃ e ∈ (t.replicas p).toList, e.2.status = .active := by
  constructor
  · rintro ⟨id, r, hr, hactive⟩
    refine ⟨(id, r), ?_, hactive⟩
    rw [Std.ExtTreeMap.mem_toList_iff_getElem?_eq_some, getElem?_replicas]
    exact hr
  · rintro ⟨⟨id, r⟩, hmem, hactive⟩
    rw [Std.ExtTreeMap.mem_toList_iff_getElem?_eq_some, getElem?_replicas] at hmem
    exact ⟨id, r, hmem, hactive⟩

instance (t : Topology) (p : PartitionId) : Decidable (t.Served p) :=
  decidable_of_iff _ served_iff_exists_mem_replicas.symm

theorem Served.congr (h : t.Served p) (hmembers : t.members = t'.members) : t'.Served p := by
  rcases h with ⟨id, r, hr, hactive⟩
  exact ⟨id, r, by rw [← replica?_congr hmembers, hr], hactive⟩

theorem AllActive.served (h : t.AllActive) (hp : p ∈ t.partitions) : t.Served p := by
  rcases mem_partitions_iff.1 hp with ⟨id, hhosts⟩
  rcases Option.isSome_iff_exists.1 hhosts with ⟨r, hr⟩
  exact ⟨id, r, hr, h.replicas id p r hr⟩

end Topology

namespace Ready

open ReplicaCluster.Topology

variable {settings : Settings} {t : Topology} {op : Operation} {prepared : Prepared}
  {q : PartitionId}

/-- Marking an operation keeps a partition served, unless it marks the departure of the last
active replica, beside others that are not active but enough for the floor. -/
theorem served_inProgress (ready : Ready settings t op prepared) (served : t.Served q) :
    (prepared.inProgress.apply op.member t).Served q ∨
      ∃ m, op = ⟨m, .leavePartition q⟩ ∧ prepared.inProgress = .replicaLeaving q ∧
        settings.floor < t.replicaCount q ∧
        ∀ id r, t.replica? id q = some r → id ≠ m → r.status ≠ .active := by
  have hmarks := ready.replica?_inProgress
  by_cases hserved : (prepared.inProgress.apply op.member t).Served q
  · exact Or.inl hserved
  · right
    -- A replica that is marked as it was would still serve.
    have htouched : ∀ id r, t.replica? id q = some r → r.status = .active →
        op.marks id q (some r) ≠ some r := by
      intro id r hr hactive hsame
      exact hserved ⟨id, r, by rw [hmarks, hr, hsame], hactive⟩
    rcases served with ⟨id, r, hr, hactive⟩
    have hid := htouched id r hr hactive
    cases ready with
    | @joinPartition m p priority active filling others =>
        by_cases htarget : m = id ∧ p = q
        · -- Only a replica that is not active yet is filled once more.
          rcases htarget with ⟨rfl, rfl⟩
          have hfilling := filling r hr
          rw [hactive] at hfilling
          cases hfilling
        · simp [Operation.marks, htarget] at hid
    | @leavePartition m p active hosted kept =>
        by_cases htarget : m = id ∧ p = q
        · rcases htarget with ⟨rfl, rfl⟩
          have hpos := settings.floor_pos
          refine ⟨m, rfl, rfl, by omega, ?_⟩
          intro other r' hr' hother hactive'
          refine htouched other r' hr' hactive' ?_
          simp [Operation.marks, hother.symm]
        · simp [Operation.marks, htarget] at hid
    | _ => simp [Operation.marks] at hid

theorem served_confirmed (ready : Ready settings t op prepared) (served : t.Served q)
    (departing : ∀ m r, op = ⟨m, .leavePartition q⟩ → t.replica? m q = some r →
      r.status ≠ .active) :
    (prepared.confirmed.apply op.member t).Served q := by
  have hconfirms := ready.replica?_confirmed
  rcases served with ⟨id, r, hr, hactive⟩
  -- It is enough that this replica, whatever becomes of it, goes on to serve.
  have henough : ∀ r', op.confirms id q (some r) = some r' → r'.status = .active →
      (prepared.confirmed.apply op.member t).Served q := by
    intro r' hr' hactive'
    exact ⟨id, r', by rw [hconfirms, hr, hr'], hactive'⟩
  cases ready with
  | @leavePartition m p active hosted kept =>
      by_cases htarget : m = id ∧ p = q
      · rcases htarget with ⟨rfl, rfl⟩
        exact absurd hactive (departing m r rfl hr)
      · exact henough r (by simp [Operation.confirms, htarget]) hactive
  | @overwriteHosts m p hosts coordinator nonempty nodup known =>
      by_cases htarget : p = q
      · -- All the new hosts serve, and there is one.
        subst htarget
        rcases List.exists_mem_of_ne_nil hosts nonempty with ⟨host, hhost⟩
        rcases Option.isSome_iff_exists.1 (Priorities.isSome_descending.2 hhost) with
          ⟨priority, hpriority⟩
        exact ⟨host, .active priority, by rw [hconfirms]; simp [Operation.confirms, hpriority], rfl⟩
      · exact henough r (by simp [Operation.confirms, htarget]) hactive
  | @setPriority m p priority r' active hosted serving =>
      by_cases htarget : m = id ∧ p = q
      · exact henough { r with priority } (by simp [Operation.confirms, htarget]) hactive
      · exact henough r (by simp [Operation.confirms, htarget]) hactive
  | @joinPartition m p priority active filling others =>
      by_cases htarget : m = id ∧ p = q
      · exact henough { r with status := .active } (by simp [Operation.confirms, htarget]) rfl
      · exact henough r (by simp [Operation.confirms, htarget]) hactive
  | @forceReconfigure m p bootstrap hosted =>
      by_cases htarget : m = id ∧ p = q
      · exact henough { r with status := .active } (by simp [Operation.confirms, htarget]) rfl
      · exact henough r (by simp [Operation.confirms, htarget]) hactive
  | joinCluster free => exact henough r rfl hactive
  | leaveCluster known settled empty => exact henough r rfl hactive

end Ready

end ReplicaCluster
