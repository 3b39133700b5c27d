import ReplicaCluster.Planning.Intent
import ReplicaCluster.Proofs.Execution.Priorities
import ReplicaCluster.Proofs.Planning.Moves
import ReplicaCluster.Proofs.Planning.Recovery

/-!
# Priorities that plans give

Of all that can be asked for, only a single operation may name a priority that the client has made
up.  Plans for sets of members rank from 1 upwards: newcomers rank below those present but not below
1, a replacement inherits the priority of the replica that it replaces, and a rebalancing ranks anew.
-/

namespace ReplicaCluster

/-- On a topology without priorities below 1 in the partition, no plan gives one. -/
def Planner.Positive (p : PartitionId) (planner : Planner) : Prop :=
  ∀ t operations, t.Positive p → planner t = .ok operations → ∀ op ∈ operations, op.Positive p

namespace Operation

variable {op : Operation} {m : MemberId} {p q : PartitionId} {priority : Priority}

theorem positive_of_grants_none (h : ∀ priority, ¬ op.Grants p priority) : op.Positive p :=
  fun priority hgrants => absurd hgrants (h priority)

theorem positive_joinPartition (h : q = p → 1 ≤ priority) :
    Operation.Positive p ⟨m, .joinPartition q priority⟩ := by
  rintro granted ⟨hq, rfl⟩
  exact h hq

theorem positive_setPriority (h : q = p → 1 ≤ priority) :
    Operation.Positive p ⟨m, .setPriority q priority⟩ := by
  rintro granted ⟨hq, rfl⟩
  exact h hq

end Operation

namespace Planner

open ReplicaCluster.Operation

variable {p : PartitionId}

/-! ## Adding members -/

theorem one_le_newcomerPriority (present : Priorities) : 1 ≤ newcomerPriority present :=
  le_max_right _ _

theorem positive_of_mem_completePartitions (t : Topology) (replicationFactor : Nat)
    (partitions : List PartitionId) :
    ∀ load, ∀ op ∈ completePartitions t replicationFactor partitions load, op.Positive p := by
  induction partitions with
  | nil =>
      intro load op hop
      cases hop
  | cons q rest ih =>
      intro load op hop
      rcases List.mem_append.1 hop with hjoin | hrest
      · rcases List.mem_map.1 hjoin with ⟨m, -, rfl⟩
        exact positive_joinPartition fun _ => one_le_newcomerPriority _
      · exact ih _ op hrest

theorem positive_addMembers (members : List MemberId) (replicationFactor : Nat) :
    (addMembers members replicationFactor).Positive p := by
  intro t operations _ hplan op hop
  simp only [addMembers] at hplan
  split at hplan
  · cases hplan
    cases hop
  · cases hplan
    rcases List.mem_append.1 hop with hnew | hjoin
    · rcases List.mem_map.1 hnew with ⟨m, -, rfl⟩
      exact positive_of_grants_none fun _ h => h
    · exact positive_of_mem_completePartitions t replicationFactor _ _ op hjoin

/-! ## Removing members -/

/-- Neither where the partition will be nor on the way there has it a priority below 1. -/
structure Draft.Positive (p : PartitionId) (d : Draft) : Prop where
  placement : ∀ m priority, d.placement.priority? p m = some priority → 1 ≤ priority
  operations : ∀ op ∈ d.operations, op.Positive p

/-- One partition's hosts are replaced, by hosts whose priorities were there before. -/
theorem Draft.Positive.move {d : Draft} {q : PartitionId} {hosts moved : Priorities}
    {operations : List Operation} (h : d.Positive p) (present : d.placement[q]? = some hosts)
    (inherits : ∀ (m : MemberId) (priority : Priority), moved[m]? = some priority →
      ∃ m' : MemberId, hosts[m']? = some priority)
    (added : ∀ op ∈ operations, op.Positive p) :
    Draft.Positive p ⟨d.placement.insert q moved, d.operations ++ operations⟩ := by
  refine ⟨?_, ?_⟩
  · intro m priority hpriority
    rcases Option.bind_eq_some_iff.1 hpriority with ⟨found, hfound, hm⟩
    rw [Std.ExtTreeMap.getElem?_insert] at hfound
    by_cases hq : compare q p = .eq
    · have hmoved : moved = found := by simpa [hq] using hfound
      rcases inherits m priority (hmoved ▸ hm) with ⟨m', hm'⟩
      refine h.placement m' priority ?_
      rw [← Std.LawfulEqCmp.eq_of_compare hq, Placement.priority?_of_getElem? present, hm']
    · rw [if_neg hq] at hfound
      exact h.placement m priority (by rw [Placement.priority?_of_getElem? hfound, hm])
  · exact List.forall_mem_append.2 ⟨h.operations, added⟩

theorem Draft.Positive.evacuatePartition {survivors : List MemberId} {replicationFactor : Nat}
    {member : MemberId} {d d' : Draft} {q : PartitionId} (h : d.Positive p)
    (hd' : evacuatePartition survivors replicationFactor member d q = .ok d') :
    d'.Positive p := by
  have hleave : Operation.Positive p ⟨member, .leavePartition q⟩ :=
    positive_of_grants_none fun _ hgrants => hgrants
  unfold Planner.evacuatePartition at hd'
  cases hpresent : d.placement[q]? with
  | none =>
      have hsame : d = d' := by simpa [hpresent] using hd'
      exact hsame ▸ h
  | some hosts =>
      cases hmember : hosts[member]? with
      | none =>
          have hsame : d = d' := by simpa [hpresent, hmember] using hd'
          exact hsame ▸ h
      | some priority =>
          simp only [hpresent, hmember] at hd'
          split at hd'
          · -- The replacement takes over the priority that the member had.
            split at hd'
            · simp at hd'
            · next replacement _ =>
                cases hd'
                refine h.move hpresent ?_ ?_
                · intro m inherited hm
                  rw [Std.ExtTreeMap.getElem?_erase, Std.ExtTreeMap.getElem?_insert] at hm
                  split at hm
                  · simp at hm
                  · split at hm
                    · exact ⟨member, hmember.trans hm⟩
                    · exact ⟨m, hm⟩
                · have hjoin : Operation.Positive p ⟨replacement, .joinPartition q priority⟩ := by
                    refine positive_joinPartition ?_
                    rintro rfl
                    refine h.placement member priority ?_
                    rw [Placement.priority?_of_getElem? hpresent, hmember]
                  simpa using ⟨hjoin, hleave⟩
          · cases hd'
            refine h.move hpresent ?_ (by simpa using hleave)
            intro m inherited hm
            rw [Std.ExtTreeMap.getElem?_erase] at hm
            split at hm
            · simp at hm
            · exact ⟨m, hm⟩

theorem Draft.Positive.evacuateMember {survivors : List MemberId} {replicationFactor : Nat}
    {member : MemberId} {d d' : Draft} (h : d.Positive p)
    (hd' : evacuateMember survivors replicationFactor d member = .ok d') : d'.Positive p := by
  unfold Planner.evacuateMember at hd'
  rw [bind_eq_ok_iff] at hd'
  rcases hd' with ⟨emptied, hemptied, hlast⟩
  have hpositive : emptied.Positive p :=
    invariant_foldlM _ (fun _ _ _ _ hd hstep => hd.evacuatePartition hstep) h hemptied
  have hquit : Operation.Positive p ⟨member, .leaveCluster⟩ :=
    positive_of_grants_none fun _ hgrants => hgrants
  cases hlast
  exact ⟨hpositive.placement, List.forall_mem_append.2 ⟨hpositive.operations, by simpa using hquit⟩⟩

theorem positive_removeMembers (members : List MemberId) (replicationFactor : Nat) :
    (removeMembers members replicationFactor).Positive p := by
  intro t operations ht hplan op hop
  unfold removeMembers at hplan
  rw [bind_eq_ok_iff] at hplan
  rcases hplan with ⟨draft, hdraft, hlast⟩
  cases hlast
  have hstart : Draft.Positive p ⟨t.placement, []⟩ := by
    refine ⟨?_, by simp⟩
    intro m priority hpriority
    rw [Topology.priority?_placement] at hpriority
    rcases Option.map_eq_some_iff.1 hpriority with ⟨r, hr, rfl⟩
    exact ht.replicas m r hr
  have hpositive : draft.Positive p :=
    invariant_foldlM _ (fun _ _ _ _ hd hstep => hd.evacuateMember hstep) hstart hdraft
  exact hpositive.operations op hop

/-! ## Moving to a target -/

theorem positive_of_mem_moves {current target : Placement} (h : target.Positive) {op : Operation}
    (hop : op ∈ moves current target) : op.Positive p := by
  rcases mem_moves_iff.1 hop with ⟨q, m, -, hmove⟩
  generalize hbefore : current.priority? q m = before at hmove
  generalize hafter : target.priority? q m = after at hmove
  cases hmove with
  | join priority => exact positive_joinPartition fun _ => h q m _ hafter
  | promote changes => exact positive_setPriority fun _ => h q m _ hafter
  | depart old => exact positive_of_grants_none fun _ hgrants => hgrants

theorem positive_spread (members : List MemberId) (replicationFactor : Nat) :
    (spread members replicationFactor).Positive p := by
  intro t operations _ hplan op hop
  unfold spread at hplan
  split at hplan
  · simp at hplan
  · split at hplan
    · simp at hplan
    · cases hplan
      exact positive_of_mem_moves (Placement.positive_rebalance _ _ _) hop

theorem positive_reassign (members : List MemberId) (replicationFactor : Nat) :
    (reassign members replicationFactor).Positive p := by
  intro t operations ht hplan op hop
  simp only [reassign] at hplan
  split at hplan
  · simp at hplan
  · exact positive_spread _ replicationFactor t operations ht hplan op hop

theorem positive_scale (members : List MemberId) (replicationFactor : Nat) :
    (scale members replicationFactor).Positive p := by
  intro t operations ht hplan op hop
  simp only [scale] at hplan
  split at hplan
  · simp at hplan
  · rw [bind_eq_ok_iff] at hplan
    rcases hplan with ⟨moved, hmoved, hlast⟩
    cases hlast
    rcases List.mem_append.1 hop with hop | hleave
    · rcases List.mem_append.1 hop with hnew | hmove
      · rcases List.mem_map.1 hnew with ⟨m, -, rfl⟩
        exact positive_of_grants_none fun _ hgrants => hgrants
      · exact positive_spread _ replicationFactor t moved ht hmoved op hmove
    · rcases List.mem_map.1 hleave with ⟨m, -, rfl⟩
      exact positive_of_grants_none fun _ hgrants => hgrants

end Planner

/-! ## Dropping members -/

theorem Recovery.positive_of_mem_operations {members : List MemberId} {t : Topology} {r : Recovery}
    {p : PartitionId} (h : plan members t = .ok r) : ∀ op ∈ r.operations, op.Positive p := by
  intro op hop
  rcases exists_of_mem_operations h hop with ⟨host, q, bootstrap, rfl⟩
  exact Operation.positive_of_grants_none fun _ hgrants => hgrants

end ReplicaCluster
