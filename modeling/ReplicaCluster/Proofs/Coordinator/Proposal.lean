import ReplicaCluster.Coordinator
import ReplicaCluster.Proofs.Execution.Readiness

/-!
# Proposals — what it takes for a change to be proposed

A change is proposed if it is planned, can be started and passes its simulation.
-/

namespace ReplicaCluster

namespace Coordinator

variable {settings : Settings} {planner : Planner} {t : Topology} {operations : List Operation}
  {now : Int} {p : Proposal}

theorem propose_of_plan (now : Int) (plan : planner t = .ok operations)
    (nonempty : operations ≠ []) :
    propose settings now planner t =
      if t.initialized then do
        let started ← t.startChange operations
        let final ← started.simulate settings now
        return some { operations, started, final }
      else refuse .notInitialized := by
  have hempty : operations.isEmpty = false := by simpa using nonempty
  simp only [propose, plan, bind, Except.bind, hempty, Bool.false_eq_true, if_false]

theorem propose_eq_ok_some_iff :
    propose settings now planner t = .ok (some p) ↔
      planner t = .ok p.operations ∧ p.operations ≠ [] ∧ t.initialized ∧
        t.startChange p.operations = .ok p.started ∧
        p.started.simulate settings now = .ok p.final := by
  cases hplan : planner t with
  | error e => simp [propose, hplan, bind, Except.bind]
  | ok operations =>
      by_cases hempty : operations = []
      · subst hempty
        have hnone : propose settings now planner t = .ok none := by
          simp [propose, hplan, bind, Except.bind, pure, Except.pure]
        rw [hnone]
        constructor
        · intro h
          cases h
        · rintro ⟨hoperations, hnonempty, -⟩
          have hops : [] = p.operations := by simpa using hoperations
          exact absurd hops.symm hnonempty
      · rw [propose_of_plan now hplan hempty]
        by_cases hinit : t.initialized
        · simp only [hinit, if_true, bind_eq_ok_iff, true_and, pure, Except.pure, Except.ok.injEq,
            Option.some.injEq]
          constructor
          · rintro ⟨started, hstart, final, hfinal, rfl⟩
            exact ⟨rfl, hempty, hstart, hfinal⟩
          · rintro ⟨rfl, -, hstart, hfinal⟩
            exact ⟨p.started, hstart, p.final, hfinal, rfl⟩
        · simp [hinit]

end Coordinator

end ReplicaCluster
