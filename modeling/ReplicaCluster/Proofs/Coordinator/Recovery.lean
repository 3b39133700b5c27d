import ReplicaCluster.Proofs.Coordinator.Agreement
import ReplicaCluster.Proofs.Execution.Declarations
import ReplicaCluster.Proofs.Planning.Recovery

/-!
# Recovery after the loss of members, from the request to the end

A recovery succeeds whenever some member is to be dropped and some member is to stay, whatever the
statuses of members and replicas are.  What is stored is the topology without the dropped members;
carrying the recovery out leaves every other replica where it is, active, and tells each owner of a
partition of the same owners (`Coordinator.recovery_restores_survivors`).
-/

namespace ReplicaCluster

open ReplicaCluster.Topology

variable {settings : Settings} {t : Topology} {members : List MemberId} {r : Recovery}
  {now : Int} {id : MemberId} {p : PartitionId} {op : Operation}

/-! ## The operations of a recovery -/

namespace Recovery

theorem operations_eq_nil_iff (h : plan members t = .ok r) :
    r.operations = [] ↔ ∀ p ∈ t.partitions, t.survivors members p = [] := by
  simp [operations_eq h, List.flatMap_eq_nil_iff]

/-- Only hosts that are left are declared owners. -/
theorem declares_of_mem_operations (h : plan members t = .ok r) (hop : op ∈ r.operations) :
    ∃ m p, op.Declares m p ∧ (r.topology.replica? m p).isSome := by
  rcases plan_eq_ok h with ⟨-, -, -, hoperations, -⟩
  rw [hoperations] at hop
  rcases List.mem_flatMap.1 hop with ⟨p, -, howner⟩
  rcases exists_of_mem_declareOwners howner with ⟨m, bootstrap, hm, rfl⟩
  rw [keys_replicas_plan h, mem_survivors_iff] at hm
  refine ⟨m, p, ⟨bootstrap, rfl⟩, ?_⟩
  rw [replica?_plan h, if_neg hm.2]
  exact hm.1

/-- Every replica that is left is declared. -/
theorem site_mem_of_hosts (h : plan members t = .ok r) (hosted : (r.topology.replica? id p).isSome) :
    (id, some p) ∈ r.operations.map Operation.site := by
  have hsurvives : id ∈ t.survivors members p := by
    rw [replica?_plan h] at hosted
    split at hosted
    · cases hosted
    · next hkept => exact mem_survivors_iff.2 ⟨hosted, hkept⟩
  have hp : p ∈ t.partitions := mem_partitions_iff.2 ⟨id, (mem_survivors_iff.1 hsurvives).1⟩
  rcases List.getElem_of_mem hsurvives with ⟨i, hi, rfl⟩
  rw [operations_eq h, List.mem_map]
  exact ⟨_, List.mem_flatMap.2 ⟨p, hp, List.mem_mapIdx.2 ⟨i, hi, rfl⟩⟩, rfl⟩

theorem exists_replay (settings : Settings) (h : plan members t = .ok r) :
    Replay settings r.topology r.operations (r.topology.performAll r.operations) :=
  (passes_declarations fun _ hop => declares_of_mem_operations h hop).replay

/-- At the end everything that is left serves, where it was and with the priority that it had. -/
theorem replica?_performAll (h : plan members t = .ok r) :
    (r.topology.performAll r.operations).replica? id p =
      if id ∈ members then none else (t.replica? id p).map Replica.serving := by
  have hdeclares : ∀ op ∈ r.operations, ∃ m p, op.Declares m p := fun op hop => by
    rcases declares_of_mem_operations h hop with ⟨m, p, hdeclares, -⟩
    exact ⟨m, p, hdeclares⟩
  rw [replica?_performAll_declarations hdeclares]
  cases hr : r.topology.replica? id p with
  | none =>
      rw [replica?_plan h] at hr
      by_cases hid : id ∈ members
      · simp [hid]
      · rw [if_neg hid] at hr
        simp [hr]
  | some x =>
      have hsite : (id, some p) ∈ r.operations.map Operation.site :=
        site_mem_of_hosts h (by simp [hr])
      rw [if_pos hsite, ← hr, replica?_plan h]
      split
      · rfl
      · rfl

theorem status?_performAll (h : plan members t = .ok r) :
    (r.topology.performAll r.operations).status? id = r.topology.status? id := by
  refine status?_performAll_declarations fun op hop => ?_
  rcases declares_of_mem_operations h hop with ⟨m, p, hdeclares, -⟩
  exact ⟨m, p, hdeclares⟩

end Recovery

/-! ## Requests for a recovery -/

namespace Coordinator

theorem run_recover_of_error {e : Failure}
    (h : proposeRecovery settings now members t = .error e) :
    (recover settings now members).run Undisturbed.host (Undisturbed.holding t) =
      (.error e, Undisturbed.holding t) := by
  simp [recover, Process.run, Undisturbed.host, Undisturbed.holding, Host.recorded, Store.host,
    Store.topology, Store.content, Except.mapError, h]

theorem run_recover {proposal : Proposal}
    (h : proposeRecovery settings now members t = .ok proposal) :
    (recover settings now members).run Undisturbed.host (Undisturbed.holding t) =
      (.ok ⟨t, proposal.final, pendingId proposal.started, proposal.operations⟩,
        ⟨.memory proposal.started, [proposal.started], []⟩) := by
  simp [recover, Process.run, Undisturbed.host, Undisturbed.holding, Host.recorded, Store.host,
    Store.topology, Store.content, Except.mapError, h, Store.update, Except.bind, Store.write]

theorem proposeRecovery_of_idle (settings : Settings) (now : Int) (members : List MemberId)
    (initialized : t.initialized) (idle : t.pending = none) :
    proposeRecovery settings now members t = do
      let recovery ← Recovery.plan members t
      if recovery.operations.isEmpty then
        return ⟨[], recovery.topology, recovery.topology⟩
      else
        let started ← recovery.topology.startChange recovery.operations
        let final ← started.simulate settings now
        return { operations := recovery.operations, started, final } := by
  simp only [proposeRecovery, initialized, if_true, idle]

/-- A recovery that is planned is proposed, for its simulation succeeds. -/
theorem exists_proposeRecovery (settings : Settings) (now : Int) (initialized : t.initialized)
    (idle : t.pending = none) (hplan : Recovery.plan members t = .ok r) :
    ∃ proposal, proposeRecovery settings now members t = .ok proposal ∧
      proposal.operations = r.operations ∧
      proposal.final.Alike (r.topology.performAll r.operations) ∧
      proposal.started =
        if r.operations = [] then r.topology else r.topology.begun r.operations := by
  rw [proposeRecovery_of_idle settings now members initialized idle, hplan]
  by_cases hnone : r.operations = []
  · refine ⟨⟨[], r.topology, r.topology⟩, ?_, hnone.symm, ?_, ?_⟩
    · simp [hnone, bind, Except.bind, pure, Except.pure]
    · rw [hnone]
      exact .refl _
    · rw [if_pos hnone]
  · have hidle : r.topology.pending = none := by rw [(Recovery.pending_plan hplan).1, idle]
    rcases exists_simulate_of_replay now hnone (Recovery.exists_replay settings hplan) with
      ⟨final, hsim, halike⟩
    have hstart : r.topology.startChange r.operations = .ok (r.topology.begun r.operations) :=
      startChange_eq_ok_iff.2 ⟨hidle, hnone, rfl⟩
    refine ⟨⟨r.operations, r.topology.begun r.operations, final⟩, ?_, rfl, halike, ?_⟩
    · simp [hnone, hstart, hsim, bind, Except.bind, pure, Except.pure]
    · rw [if_neg hnone]

/-- The members that are to be dropped are some members of the cluster, but not all of them. -/
def Recoverable (t : Topology) (members : List MemberId) : Prop :=
  (∃ id ∈ members, t.hasMember id) ∧ ∃ id, t.hasMember id ∧ id ∉ members

/-- What a recovery answers and what it stores. -/
structure Recovered (t : Topology) (members : List MemberId) (plan : Recovery)
    (answer : ChangeResult) (stored : Topology) : Prop where
  planned : Recovery.plan members t = .ok plan
  member? : ∀ id, stored.member? id = if id ∈ members then none else t.member? id
  /-- Each partition has one operation for each host that it has left, in the order of their names,
  and just the last of them starts the partition. -/
  operations : answer.operations = t.partitions.flatMap fun p =>
    (t.survivors members p).mapIdx fun i host =>
      ⟨host, .forceReconfigure p (i + 1 = (t.survivors members p).length)⟩
  lost : plan.lost = t.partitions.filter fun p => (t.survivors members p).isEmpty
  none_survives : (∀ p ∈ t.partitions, t.survivors members p = []) →
    answer.operations = [] ∧ stored = plan.topology ∧ stored.pending = none ∧ answer.changeId = 0
  some_survives : (∃ p ∈ t.partitions, t.survivors members p ≠ []) →
    stored.pending = some (.start t.nextChangeId answer.operations) ∧
      answer.changeId = t.nextChangeId

/-- What carrying out a recovery tells the members and leaves in the end. -/
structure Restored (t : Topology) (members : List MemberId) (operations : List Operation)
    (calls : List Call) (final : Topology) : Prop where
  calls : List.Forall₂ (fun call op => ∃ m p bootstrap, op = ⟨m, .forceReconfigure p bootstrap⟩ ∧
    call = .forceReconfigure m p (t.survivors members p) bootstrap) calls operations
  status? : ∀ id, final.status? id = if id ∈ members then none else t.status? id
  replica? : ∀ id p, final.replica? id p =
    if id ∈ members then none else (t.replica? id p).map Replica.serving
  pending : final.pending = none

theorem nextChangeId_plan (h : Recovery.plan members t = .ok r) :
    r.topology.nextChangeId = t.nextChangeId := by
  rw [nextChangeId, (Recovery.pending_plan h).2, nextChangeId]

theorem recovered_of_plan (h : Recovery.plan members t = .ok r) (idle : t.pending = none)
    (final : Topology) :
    let stored := if r.operations = [] then r.topology else r.topology.begun r.operations
    Recovered t members r ⟨t, final, pendingId stored, r.operations⟩ stored := by
  intro stored
  have hidle : r.topology.pending = none := by rw [(Recovery.pending_plan h).1, idle]
  have hmembers : stored.members = r.topology.members := by
    unfold stored
    split
    · rfl
    · rfl
  refine ⟨h, fun id => ?_, Recovery.operations_eq h, Recovery.lost_eq h, ?_, ?_⟩
  · rw [← Recovery.member?_plan h, Topology.member?, hmembers, Topology.member?]
  · intro hlost
    have hnone := (Recovery.operations_eq_nil_iff h).2 hlost
    have hstored : stored = r.topology := if_pos hnone
    rw [hstored]
    exact ⟨hnone, rfl, hidle, by simp [pendingId, hidle]⟩
  · rintro ⟨p, hp, hsurvives⟩
    have hsome : r.operations ≠ [] := fun hnone =>
      hsurvives ((Recovery.operations_eq_nil_iff h).1 hnone p hp)
    have hstored : stored = r.topology.begun r.operations := if_neg hsome
    rw [hstored, ← nextChangeId_plan h]
    exact ⟨rfl, rfl⟩

theorem exists_drain (driving : Settings) (drainedAt : Int) (h : Recovery.plan members t = .ok r)
    (idle : t.pending = none) :
    let stored := if r.operations = [] then r.topology else r.topology.begun r.operations
    ∃ final writes calls,
      Execution.drain Undisturbed.host Undisturbed.progress driving drainedAt
        ⟨.memory stored, [stored], []⟩ =
          (.ok r.operations.length, ⟨.memory final, writes, calls⟩) ∧
      Restored t members r.operations calls final ∧
      final.Alike (r.topology.performAll r.operations) := by
  intro stored
  have hstored : r.topology.Alike stored := by
    unfold stored
    split
    · exact .refl _
    · exact .of_members rfl
  -- Whatever is told and left for these operations is what a recovery should tell and leave.
  have hrestored : ∀ {calls : List Call} {final : Topology},
      Told driving drainedAt stored r.operations calls →
      final.Alike (r.topology.performAll r.operations) → final.pending = none →
      Restored t members r.operations calls final := by
    intro calls final htold halike hnone
    refine ⟨htold.declarations (fun op hop => ?_) (fun p => ?_), fun id => ?_, fun id p => ?_, hnone⟩
    · rcases Recovery.declares_of_mem_operations h hop with ⟨m, p, hdeclares, -⟩
      exact ⟨m, p, hdeclares⟩
    · rw [← hstored.replicas, Recovery.keys_replicas_plan h]
    · rw [halike.status?, Recovery.status?_performAll h, Topology.status?, Recovery.member?_plan h]
      split
      · rfl
      · rfl
    · rw [halike.replica?, Recovery.replica?_performAll h]
  by_cases hnone : r.operations = []
  · have hidle : r.topology.pending = none := by rw [(Recovery.pending_plan h).1, idle]
    have htopology : stored = r.topology := if_pos hnone
    have hdone : r.topology.Alike (r.topology.performAll r.operations) := by
      rw [hnone]
      exact .refl _
    have htold : Told driving drainedAt stored r.operations [] := by
      rw [hnone]
      exact .nil
    refine ⟨r.topology, [r.topology], [], ?_, hrestored htold hdone hidle, hdone⟩
    rw [htopology, Execution.drain, Undisturbed.run_advance_idle _ _ hidle, hnone]
    rfl
  · have hbegun : stored = r.topology.begun r.operations := if_neg hnone
    rcases ((Recovery.exists_replay driving h).alike_left hstored).foldlM
      (hbegun ▸ awaits_begun drainedAt hnone) with ⟨final, hfold, halike⟩
    rcases Undisturbed.drain_of_carryOut r.operations [stored] []
      (hbegun ▸ awaits_begun drainedAt hnone) hfold with ⟨writes, told, htold, hdone, -, hdrain⟩
    exact ⟨final, writes, [] ++ told, hdrain, hrestored htold halike hdone, halike⟩

/-- A recovery on a store that nothing disturbs succeeds just if it drops some member and keeps
some; otherwise it is refused as an invalid request and stores nothing.  It stores the topology
without the dropped members, with the change started that declares the hosts of each partition that
has any left, and with no change if none has.  Carrying that out tells all owners of a partition of
the same owners, those that are left, and in the end each of their replicas serves with the priority
that it had. -/
theorem recovery_restores_survivors (settings driving : Settings) (t : Topology)
    (members : List MemberId) (recoveredAt drainedAt : Int) (initialized : t.initialized)
    (idle : t.pending = none) :
    let outcome := (recover settings recoveredAt members).run Undisturbed.host
      (Undisturbed.holding t)
    (¬ Recoverable t members →
      ∃ e, outcome = (.error e, Undisturbed.holding t) ∧ e.kind = .invalidRequest) ∧
    (Recoverable t members →
      ∃ plan answer stored, outcome = (.ok answer, ⟨.memory stored, [stored], []⟩) ∧
        Recovered t members plan answer stored ∧
        ∃ final writes calls,
          Execution.drain Undisturbed.host Undisturbed.progress driving drainedAt
            ⟨.memory stored, [stored], []⟩ =
              (.ok answer.operations.length, ⟨.memory final, writes, calls⟩) ∧
          Restored t members answer.operations calls final ∧
          final.profile = answer.final.profile) := by
  intro outcome
  constructor
  · intro hnot
    cases hplan : Recovery.plan members t with
    | ok r => exact absurd (Recovery.exists_plan_iff.1 ⟨r, hplan⟩) hnot
    | error e =>
        have hrefused : proposeRecovery settings recoveredAt members t = .error e := by
          rw [proposeRecovery_of_idle settings recoveredAt members initialized idle, hplan]
          rfl
        exact ⟨e, run_recover_of_error hrefused, Recovery.invalidRequest_of_plan hplan⟩
  · intro hrecoverable
    rcases Recovery.exists_plan_iff.2 hrecoverable with ⟨r, hplan⟩
    rcases exists_proposeRecovery settings recoveredAt initialized idle hplan with
      ⟨proposal, hpropose, hoperations, halike, hstarted⟩
    rcases exists_drain driving drainedAt hplan idle with
      ⟨final, writes, calls, hdrain, hrestored, hsame⟩
    have hrecovered := recovered_of_plan hplan idle proposal.final
    rw [← hstarted] at hdrain hrecovered
    rw [← hoperations] at hdrain hrecovered hrestored
    refine ⟨r, _, proposal.started, run_recover hpropose, hrecovered, final, writes, calls, hdrain,
      hrestored, profile_eq_iff.2 (hsame.trans halike.symm)⟩

/-- A leaving member and a joining one are all that is left of three members, and the only host of a
partition is dropped. -/
theorem recovery_restores_survivors_irregular :
    let t := ((Topology.initial.addMember "a"
      ⟨0, .leaving, .ofList [(1, Replica.active 3), (2, ⟨.leaving, 2⟩)]⟩).addMember "b"
      ⟨0, .joining, .ofList [(1, Replica.joining 1)]⟩).addMember "c"
      (.active (.ofList [(3, Replica.active 1)]))
    t.initialized ∧ t.pending = none ∧ Recoverable t ["c", "x", "c"] ∧
      ∃ plan answer stored final writes calls,
        (recover {} 1 ["c", "x", "c"]).run Undisturbed.host (Undisturbed.holding t) =
          (.ok answer, ⟨.memory stored, [stored], []⟩) ∧
        plan.lost = [3] ∧ Recovery.plan ["c", "x", "c"] t = .ok plan ∧
        answer.operations = [⟨"a", .forceReconfigure 1 false⟩, ⟨"b", .forceReconfigure 1 true⟩,
          ⟨"a", .forceReconfigure 2 true⟩] ∧
        stored.pending = some (.start 1 answer.operations) ∧
        Execution.drain Undisturbed.host Undisturbed.progress { replicationFactor := 3 } 2
          ⟨.memory stored, [stored], []⟩ = (.ok 3, ⟨.memory final, writes, calls⟩) ∧
        final.replica? "a" 1 = some (.active 3) ∧ final.replica? "a" 2 = some (.active 2) ∧
        final.replica? "b" 1 = some (.active 1) ∧ final.replica? "c" 3 = none := by
  intro t
  have hrecoverable : Recoverable t ["c", "x", "c"] :=
    ⟨⟨"c", by decide, by decide +kernel⟩, "a", by decide +kernel, by decide⟩
  rcases (recovery_restores_survivors {} { replicationFactor := 3 } t ["c", "x", "c"] 1 2 rfl
    rfl).2 hrecoverable with
      ⟨plan, answer, stored, houtcome, hrecovered, final, writes, calls, hdrain, hrestored, -⟩
  have hoperations : answer.operations = [⟨"a", .forceReconfigure 1 false⟩,
      ⟨"b", .forceReconfigure 1 true⟩, ⟨"a", .forceReconfigure 2 true⟩] := by
    rw [hrecovered.operations]
    decide +kernel
  have hlost : plan.lost = [3] := by
    rw [hrecovered.lost]
    decide +kernel
  have hpending := hrecovered.some_survives ⟨1, by decide +kernel, by decide +kernel⟩
  have hcount : answer.operations.length = 3 := by rw [hoperations]; rfl
  rw [hcount] at hdrain
  refine ⟨rfl, rfl, hrecoverable, plan, answer, stored, final, writes, calls, houtcome, hlost,
    hrecovered.planned, hoperations, hpending.1, hdrain, ?_, ?_, ?_, ?_⟩
  · rw [hrestored.replica?]
    decide +kernel
  · rw [hrestored.replica?]
    decide +kernel
  · rw [hrestored.replica?]
    decide +kernel
  · rw [hrestored.replica?]
    rfl

end Coordinator

end ReplicaCluster
