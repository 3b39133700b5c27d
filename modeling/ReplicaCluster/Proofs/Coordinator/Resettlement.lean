import ReplicaCluster.Proofs.Coordinator.Agreement
import ReplicaCluster.Proofs.Planning.Resettlement

/-!
# Reassigning and resizing reach their target

On a cluster in which everything is active, the plan that spreads the partitions over enough members
passes its simulation.  It leads to the placement that rebalancing has computed, and on the way no
partition falls below the replication factor, or below what it had before.
-/

namespace ReplicaCluster

namespace Topology

/-- A topology that carrying out a change passes through, between two operations or within one. -/
inductive OnTheWay (settings : Settings) (now : Int) (started : Topology)
    (operations : List Operation) : Topology → Prop
  | between {done rest : List Operation} {u : Topology} (split : operations = done ++ rest)
      (reached : done.foldlM (carryOut settings now) started = .ok u) :
      OnTheWay settings now started operations u
  | within {done rest : List Operation} {op : Operation} {u : Topology} {prepared : Prepared}
      (split : operations = done ++ op :: rest)
      (reached : done.foldlM (carryOut settings now) started = .ok u)
      (checked : op.prepare settings u = .ok prepared) :
      OnTheWay settings now started operations (prepared.inProgress.apply op.member u)

variable {settings : Settings} {now : Int} {started u : Topology} {operations : List Operation}
  {id : Nat}

/-- Without overwritings no partition falls below the floor on the way, or below what it had. -/
theorem OnTheWay.replicaCount {q : PartitionId}
    (h : OnTheWay settings now started operations u)
    (hawaits : started.Awaits now id [] operations) (kept : ∀ op ∈ operations, ¬ op.Overwrites q) :
    min (started.replicaCount q) settings.floor ≤ u.replicaCount q := by
  have hreached : ∀ {done rest : List Operation} {u : Topology}, operations = done ++ rest →
      done.foldlM (carryOut settings now) started = .ok u →
      min (started.replicaCount q) settings.floor ≤ u.replicaCount q := by
    rintro done rest u rfl hfold
    refine (Replay.of_foldlM hawaits hfold).replicaCount fun op hop => ?_
    exact kept op (List.mem_append_left rest hop)
  cases h with
  | between split reached => exact hreached split reached
  | within split reached checked =>
      exact (hreached split reached).trans
        ((Operation.ready_of_prepare checked).replicaCount_inProgress q)

end Topology

namespace Coordinator

open ReplicaCluster.Topology ReplicaCluster.Planner

/-- A change that can be replayed is proposed. -/
theorem propose_of_replay {settings : Settings} {planner : Planner} {t final : Topology}
    {operations : List Operation} (now : Int) (initialized : t.initialized)
    (idle : t.pending = none) (plan : planner t = .ok operations) (nonempty : operations ≠ [])
    (h : Replay settings t operations final) :
    ∃ p, propose settings now planner t = .ok (some p) ∧ p.operations = operations ∧
      p.started = t.begun operations ∧ p.final.Alike final := by
  rcases exists_simulate_of_replay now nonempty h with ⟨final', hsim, halike⟩
  refine ⟨⟨operations, t.begun operations, final'⟩, ?_, rfl, rfl, halike⟩
  exact propose_eq_ok_some_iff.2 ⟨plan, nonempty, initialized,
    startChange_eq_ok_iff.2 ⟨idle, nonempty, rfl⟩, hsim⟩

end Coordinator

end ReplicaCluster
