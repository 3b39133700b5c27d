import ReplicaCluster.Proofs.Coordinator.Resettlement
import ReplicaCluster.Proofs.Planning.Removal

/-!
# Plans that remove members against the floor

The planner of a removal and the check of a departure measure each partition by the same replication
factor, but not at the same time: the planner asks for one replacement, if the partition would fall
below the factor, and the check wants the partition above it once that has joined.  They agree just
where no replica is moved off a partition that is short of replicas already (`removal_accepted_iff`).
-/

namespace ReplicaCluster

open ReplicaCluster.Topology

variable {settings : Settings} {leavers : List MemberId} {replicationFactor : Nat} {t : Topology}
  {ops operations : List Operation} {m other : MemberId} {p : PartitionId} {priority : Priority}

/-! ## Partitions that are short of replicas -/

/-- No member that is to leave hosts a partition with fewer replicas than it should have. -/
def Topology.NoneShort (t : Topology) (leavers : List MemberId) (replicationFactor : Nat) : Prop :=
  ∀ m ∈ leavers, ∀ p, (t.replica? m p).isSome → replicationFactor ≤ t.replicaCount p

namespace Topology

/-- A handover leaves all partitions with as many replicas as they had. -/
theorem noneShort_handover_iff (leaver : m ∈ leavers) (stays : other ∉ leavers)
    (hosted : (t.replica? m p).isSome) (known : (t.status? other).isSome)
    (free : t.replica? other p = none) :
    t.NoneShort leavers replicationFactor ↔ replicationFactor ≤ t.replicaCount p ∧
      (t.performAll [⟨other, .joinPartition p priority⟩, ⟨m, .leavePartition p⟩]).NoneShort leavers
        replicationFactor := by
  have hdiffer : other ≠ m := fun heq => stays (heq ▸ leaver)
  constructor
  · intro h
    refine ⟨h m leaver p hosted, ?_⟩
    intro m' hm' q hq
    -- The one who gets the replica is not to leave, so what the others host they did before.
    have hother : other ≠ m' := fun heq => stays (heq ▸ hm')
    rw [Planner.replicaCount_handover known hdiffer hosted free]
    refine h m' hm' q ?_
    rw [Planner.replica?_handover known] at hq
    split at hq
    · simp at hq
    · simpa [hother] using hq
  · rintro ⟨henough, h⟩ m' hm' q hq
    by_cases hmoved : m = m' ∧ p = q
    · rw [← hmoved.2]
      exact henough
    · have hother : other ≠ m' := fun heq => stays (heq ▸ hm')
      have hcount := h m' hm' q (by
        rw [Planner.replica?_handover known]
        simpa [hmoved, hother] using hq)
      rwa [Planner.replicaCount_handover known hdiffer hosted free] at hcount

/-- A replica that can be spared does not leave its partition short. -/
theorem noneShort_departure_iff (hosted : (t.replica? m p).isSome)
    (ample : replicationFactor ≤ t.replicaCount p - 1) :
    t.NoneShort leavers replicationFactor ↔
      (Operation.perform ⟨m, .leavePartition p⟩ t).NoneShort leavers replicationFactor := by
  constructor
  · intro h m' hm' q hq
    rw [replicaCount_perform_leavePartition hosted]
    split
    · next hp => rwa [← hp]
    · refine h m' hm' q ?_
      rw [replica?_perform_leavePartition] at hq
      split at hq
      · simp at hq
      · exact hq
  · intro h m' hm' q hq
    by_cases hmoved : p = q
    · -- This partition is not short, whoever is to leave it next.
      rw [← hmoved]
      exact ample.trans (Nat.sub_le _ _)
    · have hcount := h m' hm' q (by simpa [replica?_perform_leavePartition, hmoved] using hq)
      simpa [replicaCount_perform_leavePartition hosted, hmoved] using hcount

theorem noneShort_exit_iff (empty : ∀ p, t.replica? m p = none) :
    t.NoneShort leavers replicationFactor ↔
      (Operation.perform ⟨m, .leaveCluster⟩ t).NoneShort leavers replicationFactor := by
  simp only [NoneShort, replica?_perform_leaveCluster_of_empty empty,
    replicaCount_perform_leaveCluster_of_empty empty]

end Topology

/-! ## Evacuations that pass -/

theorem Topology.status?_of_hosts (active : ∀ id s, t.status? id = some s → s = .active)
    (hosted : (t.replica? m p).isSome) : t.status? m = some .active := by
  have hknown : (t.status? m).isSome := by
    rw [← hasMember_eq_isSome]
    exact hasMember_of_hosts hosted
  rcases Option.isSome_iff_exists.1 hknown with ⟨s, hs⟩
  rw [hs, active m s hs]

/-- Among active members an evacuation passes its checks just if it moves no replica off a partition
that is short of them, as long as it leaves none behind there. -/
theorem Planner.Evacuation.passes_iff (h : Evacuation leavers settings.floor t ops) :
    (∀ id s, t.status? id = some s → s = .active) →
      (t.performAll ops).NoneShort leavers settings.floor →
        (t.Passes settings ops ↔ t.NoneShort leavers settings.floor) := by
  induction h with
  | nil =>
      intro active final
      exact ⟨fun _ => final, fun _ => passes_nil⟩
  | @handover t m other p r rest leaver hosted scarce stays replaces free tail ih =>
      intro active final
      let joined := Operation.perform ⟨other, .joinPartition p r.priority⟩ t
      have hknown : (t.status? other).isSome := by simp [replaces]
      have hdiffer : other ≠ m := fun heq => stays (heq ▸ leaver)
      have hhosted : (t.replica? m p).isSome := by simp [hosted]
      have hmember : t.status? m = some .active := status?_of_hosts active hhosted
      have hjoin : ∃ prepared,
          Ready settings t ⟨other, .joinPartition p r.priority⟩ prepared :=
        exists_ready_joinPartition replaces free hhosted
      -- With its replacement in place the member leaves as many replicas as there were.
      have hleave : (∃ prepared, Ready settings joined ⟨m, .leavePartition p⟩ prepared) ↔
          settings.floor ≤ t.replicaCount p := by
        have hcount : joined.replicaCount p = t.replicaCount p + 1 := by
          simp [joined, replicaCount_perform_joinPartition hknown free]
        have hstatus : joined.status? m = some .active := by
          rw [status?_perform_joinPartition, hmember]
        have hstill : (joined.replica? m p).isSome := by
          simpa [joined, replica?_perform_joinPartition hknown, hdiffer] using hhosted
        rw [exists_ready_leavePartition_iff hstatus hstill, hcount, Nat.add_sub_cancel]
      have hrest := ih (by simpa only [status?_handover] using active) final
      calc t.Passes settings
            (⟨other, .joinPartition p r.priority⟩ :: ⟨m, .leavePartition p⟩ :: rest)
        _ ↔ (∃ prepared, Ready settings joined ⟨m, .leavePartition p⟩ prepared) ∧
            (t.performAll [⟨other, .joinPartition p r.priority⟩,
              ⟨m, .leavePartition p⟩]).Passes settings rest := by
          simp only [passes_cons_iff, hjoin, true_and, performAll_cons, performAll_nil, joined]
        _ ↔ t.NoneShort leavers settings.floor := by
          rw [hleave, hrest, noneShort_handover_iff leaver stays hhosted hknown free]
  | @departure t m p rest leaver hosted ample tail ih =>
      intro active final
      have hleave : ∃ prepared, Ready settings t ⟨m, .leavePartition p⟩ prepared :=
        (exists_ready_leavePartition_iff (status?_of_hosts active hosted) hosted).2 ample
      have hrest := ih (by simpa only [status?_perform_leavePartition] using active) final
      rw [passes_cons_iff, hrest, noneShort_departure_iff hosted ample]
      simp only [hleave, true_and]
  | @exit t m rest leaver known empty tail ih =>
      intro active final
      rcases Option.isSome_iff_exists.1 known with ⟨s, hs⟩
      have hleave : ∃ prepared, Ready settings t ⟨m, .leaveCluster⟩ prepared :=
        ⟨_, .leaveCluster hs (by simp [active m s hs]) empty⟩
      have hothers : ∀ id s, (Operation.perform ⟨m, .leaveCluster⟩ t).status? id = some s →
          s = .active := by
        intro id s hs
        rw [status?_perform_leaveCluster] at hs
        split at hs
        · cases hs
        · exact active id s hs
      rw [passes_cons_iff, ih hothers final, noneShort_exit_iff empty]
      simp only [hleave, true_and]

namespace Coordinator

open ReplicaCluster.Planner

section Proposals

variable {planner : Planner}

/-- A change that can be started is proposed just if its plan passes all checks. -/
theorem propose_iff_passes (now : Int) (initialized : t.initialized) (idle : t.pending = none)
    (plan : planner t = .ok operations) (nonempty : operations ≠ []) :
    (∃ p, propose settings now planner t = .ok (some p)) ↔ t.Passes settings operations := by
  constructor
  · rintro ⟨p, hpropose⟩
    rcases propose_eq_ok_some_iff.1 hpropose with ⟨hplan, -, -, hstart, hsim⟩
    have hoperations : operations = p.operations := by simpa [plan] using hplan
    rw [(startChange_eq_ok_iff.1 hstart).2.2, ← hoperations, simulate_begun_eq_ok_iff] at hsim
    -- The simulation starts from the change begun, with the members as they are.
    have hbegun : t.Alike (t.begun operations) := .of_members rfl
    have hawaits : (t.begun operations).Awaits now t.nextChangeId [] (operations ++ []) := by
      simpa using awaits_begun (t := t) now nonempty
    exact ⟨p.final, (Replay.of_foldlM hawaits hsim).alike_left hbegun.symm⟩
  · rintro ⟨final, hreplay⟩
    rcases propose_of_replay now initialized idle plan nonempty hreplay with ⟨p, hpropose, -⟩
    exact ⟨p, hpropose⟩

/-- Whatever goes wrong in a simulation, the request is reported as invalid. -/
theorem invalidRequest_of_propose (now : Int) (initialized : t.initialized)
    (idle : t.pending = none) (plan : planner t = .ok operations) (nonempty : operations ≠ [])
    {e : Failure} (refused : propose settings now planner t = .error e) :
    e.kind = .invalidRequest := by
  have hstart : t.startChange operations = .ok (t.begun operations) :=
    startChange_eq_ok_iff.2 ⟨idle, nonempty, rfl⟩
  rw [propose_of_plan now plan nonempty, if_pos initialized, hstart] at refused
  cases hfold : operations.foldlM (carryOut settings now) (t.begun operations) with
  | ok final =>
      simp [simulate_begun, hfold, Except.mapError, bind, Except.bind, pure, Except.pure]
        at refused
  | error e' =>
      have he : e'.asInvalidRequest = e := by
        simpa [simulate_begun, hfold, Except.mapError, bind, Except.bind] using refused
      rw [← he]
      unfold Failure.asInvalidRequest
      split
      · next hkind => exact hkind
      · rfl

end Proposals

/-- On a cluster in which everything is active, a plan that removes members is proposed just if each
partition that one of them hosts has as many replicas as the replication factor asks for.  The plan
for any other removal is refused as invalid by its own simulation. -/
theorem removal_accepted_iff (settings : Settings) (now : Int) (members : List MemberId)
    (initialized : t.initialized) (idle : t.pending = none) (active : t.AllActive)
    (positive : 1 ≤ settings.replicationFactor)
    (plan : removeMembers members settings.replicationFactor t = .ok operations)
    (nonempty : operations ≠ []) :
    ((∃ p, propose settings now (removeMembers members settings.replicationFactor) t =
        .ok (some p)) ↔
      ∀ m ∈ members, ∀ p, (t.replica? m p).isSome →
        settings.replicationFactor ≤ t.replicaCount p) ∧
    ∀ e, propose settings now (removeMembers members settings.replicationFactor) t = .error e →
      e.kind = .invalidRequest := by
  have hfloor : settings.replicationFactor = settings.floor := (max_eq_left positive).symm
  refine ⟨(propose_iff_passes now initialized idle plan nonempty).trans ?_,
    fun e => invalidRequest_of_propose now initialized idle plan nonempty⟩
  rw [hfloor] at plan ⊢
  rcases evacuation_of_removeMembers plan with ⟨evacuation, hstatus⟩
  -- In the end no member of those is left, so none hosts anything.
  have hgone : (t.performAll operations).NoneShort members settings.floor := by
    intro m hm p hosted
    have habsent : (t.performAll operations).status? m = none := by simp [hstatus, hm]
    simp [replica?_eq_none_of_absent habsent] at hosted
  exact evacuation.passes_iff active.members hgone

/-- One member serves a partition that should have two replicas.  The replacement that it gets does
not bring the partition up to that, so the member may not leave it. -/
theorem exists_removal_refused :
    let t := ((Topology.initial.addMember "1" (.active (.insert ∅ 1 (.active 1)))).addMember "2"
      (.active ∅)).addMember "3" (.active ∅)
    let settings : Settings := { replicationFactor := 2 }
    bootstrap ["1", "2", "3"] 1 1 = .ok t ∧
      t.initialized ∧ t.pending = none ∧ t.AllActive ∧ 1 ≤ settings.replicationFactor ∧
      removeMembers ["1"] settings.replicationFactor t =
        .ok [⟨"2", .joinPartition 1 1⟩, ⟨"1", .leavePartition 1⟩, ⟨"1", .leaveCluster⟩] ∧
      propose settings 0 (removeMembers ["1"] settings.replicationFactor) t =
        .error (Cause.belowReplicationFactor 1 1 2).failure := by
  intro t settings
  have hboot : bootstrap ["1", "2", "3"] 1 1 = .ok t := by decide +kernel
  exact ⟨hboot, rfl, rfl, (allActive_of_bootstrap hboot).1, by decide, by decide +kernel,
    by decide +kernel⟩

/-- A member that serves a partition together with another one is replaced. -/
theorem removal_accepted_iff_replaced :
    let t := ((Topology.initial.addMember "1" (.active (.insert ∅ 1 (.active 2)))).addMember "2"
      (.active (.insert ∅ 1 (.active 1)))).addMember "3" (.active ∅)
    let settings : Settings := { replicationFactor := 2 }
    let operations : List Operation :=
      [⟨"3", .joinPartition 1 2⟩, ⟨"1", .leavePartition 1⟩, ⟨"1", .leaveCluster⟩]
    t.initialized ∧ t.pending = none ∧ t.AllActive ∧ 1 ≤ settings.replicationFactor ∧
      removeMembers ["1"] settings.replicationFactor t = .ok operations ∧ operations ≠ [] ∧
      ∃ p, propose settings 0 (removeMembers ["1"] settings.replicationFactor) t =
        .ok (some p) := by
  intro t settings operations
  have hboot : bootstrap ["1", "2", "3"] 1 2 = .ok t := by decide +kernel
  have hactive : t.AllActive := (allActive_of_bootstrap hboot).1
  have hplan : removeMembers ["1"] settings.replicationFactor t = .ok operations := by
    decide +kernel
  have hnonempty : operations ≠ [] := List.cons_ne_nil _ _
  have hpartitions : t.partitions = [1] := by decide +kernel
  have henough : settings.replicationFactor ≤ t.replicaCount 1 := by decide +kernel
  refine ⟨rfl, rfl, hactive, by decide, hplan, hnonempty, ?_⟩
  refine (removal_accepted_iff settings 0 ["1"] rfl rfl hactive (by decide) hplan hnonempty).1.2 ?_
  intro m _ p hosted
  have hp : p ∈ t.partitions := mem_partitions_iff.2 ⟨m, hosted⟩
  have hone : p = 1 := by simpa [hpartitions] using hp
  rw [hone]
  exact henough

end Coordinator

end ReplicaCluster
