import ReplicaCluster.Placement.Rebalance
import ReplicaCluster.Placement.RoundRobin
import ReplicaCluster.Proofs.Topology.Placement

/-!
# Priorities that placements give

A placement ranks the hosts of a partition from their number down to 1.  So whatever is placed anew,
round-robin or by rebalancing, has a priority of at least 1, whatever was there before.
-/

namespace ReplicaCluster

namespace Priorities

def Positive (p : Priorities) : Prop :=
  ∀ (id : MemberId) (priority : Priority), p[id]? = some priority → 1 ≤ priority

theorem positive_descending (hosts : List MemberId) : (descending hosts).Positive := by
  intro id priority h
  rcases List.mem_map.1 (SortedMap.mem_of_getElem?_ofList h) with ⟨⟨host, i⟩, hmem, hentry⟩
  have hbelow : i < hosts.length := by simpa using (List.mem_zipIdx hmem).2.1
  rw [← (Prod.mk.inj hentry).2]
  exact Nat.sub_pos_of_lt hbelow

end Priorities

namespace Placement

def Positive (placement : Placement) : Prop :=
  ∀ (p : PartitionId) (m : MemberId) (priority : Priority),
    placement.priority? p m = some priority → 1 ≤ priority

theorem positive_ofList {entries : List (PartitionId × Priorities)}
    (h : ∀ e ∈ entries, e.2.Positive) : Positive (.ofList entries) := by
  intro p m priority hpriority
  rcases Option.bind_eq_some_iff.1 hpriority with ⟨hosts, hhosts, hm⟩
  exact h _ (SortedMap.mem_of_getElem?_ofList hhosts) m priority hm

theorem positive_empty : Positive ∅ := by
  intro p m priority h
  simp [priority?] at h

theorem positive_roundRobin (members : List MemberId) (partitionCount replicationFactor : Nat) :
    (roundRobin members partitionCount replicationFactor).Positive := by
  unfold roundRobin
  split
  · exact positive_empty
  · refine positive_ofList ?_
    intro e he
    rcases List.mem_map.1 he with ⟨offset, -, rfl⟩
    exact Priorities.positive_descending _

theorem positive_fillAll (replicationFactor : Nat)
    (kept : List (PartitionId × Priorities × List MemberId)) :
    ∀ load, ∀ e ∈ fillAll replicationFactor kept load, e.2.Positive := by
  induction kept with
  | nil =>
      intro load e he
      cases he
  | cons k rest ih =>
      intro load
      exact List.forall_mem_cons.2 ⟨Priorities.positive_descending _, ih _⟩

theorem positive_rebalance (current : Placement) (members : List MemberId)
    (replicationFactor : Nat) : (current.rebalance members replicationFactor).Positive := by
  unfold rebalance
  split
  · exact positive_empty
  · exact positive_ofList (positive_fillAll replicationFactor _ _)

end Placement

end ReplicaCluster
