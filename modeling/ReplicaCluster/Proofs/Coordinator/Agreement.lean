import ReplicaCluster.Proofs.Coordinator.Proposal
import ReplicaCluster.Proofs.Execution.Replay

/-!
# What a dry run promises, a commit stores and an execution keeps

A dry run and a commit of the same request come to the same answer, and carrying out the change
that was stored leads to the topology that both of them announced.  Only the time of the change's
end is not known beforehand.
-/

namespace ReplicaCluster

namespace Coordinator

open ReplicaCluster.Topology

variable {settings : Settings} {planner : Planner} {t : Topology} {operations : List Operation}

/-! ## Simulations -/

theorem awaits_begun (now : Int) (nonempty : operations ≠ []) :
    (t.begun operations).Awaits now t.nextChangeId [] operations := by
  simp [Awaits, nonempty, begun, PendingChange.start]

theorem simulate_begun (now : Int) :
    (t.begun operations).simulate settings now =
      (operations.foldlM (carryOut settings now) (t.begun operations)).mapError
        Failure.asInvalidRequest := rfl

theorem simulate_begun_eq_ok_iff {now : Int} {final : Topology} :
    (t.begun operations).simulate settings now = .ok final ↔
      operations.foldlM (carryOut settings now) (t.begun operations) = .ok final := by
  rw [simulate_begun]
  cases operations.foldlM (carryOut settings now) (t.begun operations) <;> simp [Except.mapError]

/-- The simulation of a change that can be replayed succeeds. -/
theorem exists_simulate_of_replay {final : Topology} (now : Int) (nonempty : operations ≠ [])
    (h : Replay settings t operations final) :
    ∃ final', (t.begun operations).simulate settings now = .ok final' ∧ final'.Alike final := by
  have hbegun : t.Alike (t.begun operations) := .of_members rfl
  rcases (h.alike_left hbegun).foldlM (awaits_begun now nonempty) with ⟨final', hfold, halike⟩
  exact ⟨final', simulate_begun_eq_ok_iff.2 hfold, halike⟩

theorem simulate_begun_untimed (settings : Settings) (t : Topology) (now now' : Int)
    (nonempty : operations ≠ []) :
    ((t.begun operations).simulate settings now).map untimed =
      ((t.begun operations).simulate settings now').map untimed := by
  have hfold := foldlM_carryOut_untimed settings operations now now' rfl
    (awaits_begun (t := t) now nonempty)
  rw [simulate_begun, simulate_begun]
  rcases cases_of_map_eq hfold with ⟨e, hfirst, hsecond⟩ | ⟨u, u', hfirst, hsecond, hu⟩
  · rw [hfirst, hsecond]
  · rw [hfirst, hsecond]
    exact congrArg Except.ok hu

theorem propose_untimed (settings : Settings) (now now' : Int) (plan : planner t = .ok operations)
    (nonempty : operations ≠ []) :
    (∃ e, propose settings now planner t = .error e ∧ propose settings now' planner t = .error e) ∨
      ∃ p p', propose settings now planner t = .ok (some p) ∧
        propose settings now' planner t = .ok (some p') ∧ p.final.untimed = p'.final.untimed := by
  rw [propose_of_plan now plan nonempty, propose_of_plan now' plan nonempty]
  by_cases hinit : t.initialized
  · simp only [hinit, if_true]
    cases hstart : t.startChange operations with
    | error e => exact Or.inl ⟨e, rfl, rfl⟩
    | ok started =>
        have hbegun := (startChange_eq_ok_iff.1 hstart).2.2
        have hsim := simulate_begun_untimed settings t now now' nonempty
        rw [← hbegun] at hsim
        rcases cases_of_map_eq hsim with ⟨e, hfirst, hsecond⟩ | ⟨u, u', hfirst, hsecond, hu⟩
        · exact Or.inl ⟨e, by simp [bind, Except.bind, hfirst],
            by simp [bind, Except.bind, hsecond]⟩
        · refine Or.inr ⟨⟨operations, started, u⟩, ⟨operations, started, u'⟩, ?_, ?_, hu⟩
          · simp [bind, Except.bind, hfirst, pure, Except.pure]
          · simp [bind, Except.bind, hsecond, pure, Except.pure]
  · simp only [hinit]
    exact Or.inl ⟨_, rfl, rfl⟩

/-! ## Requests on a store that nothing disturbs -/

theorem run_request_of_error {now : Int} {e : Failure} (dryRun : Bool)
    (h : propose settings now planner t = .error e) :
    (request settings now dryRun planner).run Undisturbed.host (Undisturbed.holding t) =
      (.error e, Undisturbed.holding t) := by
  simp [request, Process.run, Undisturbed.host, Undisturbed.holding, Host.recorded, Store.host,
    Store.topology, Store.content, Except.mapError, h]

theorem run_dryRun {now : Int} {p : Proposal}
    (h : propose settings now planner t = .ok (some p)) :
    (request settings now true planner).run Undisturbed.host (Undisturbed.holding t) =
      (.ok ⟨t, p.final, 0, p.operations⟩, Undisturbed.holding t) := by
  simp [request, Process.run, Undisturbed.host, Undisturbed.holding, Host.recorded, Store.host,
    Store.topology, Store.content, Except.mapError, h]

theorem run_commit {now : Int} {p : Proposal}
    (h : propose settings now planner t = .ok (some p)) :
    (request settings now false planner).run Undisturbed.host (Undisturbed.holding t) =
      (.ok ⟨t, p.final, pendingId p.started, p.operations⟩,
        ⟨.memory p.started, [p.started], []⟩) := by
  simp [request, Process.run, Undisturbed.host, Undisturbed.holding, Host.recorded, Store.host,
    Store.topology, Store.content, Except.mapError, h, Store.update, Except.bind, commit,
    Store.write]

/-- Draining the store after a commit carries out what was proposed, at whatever time. -/
theorem drain_of_propose {committedAt : Int} {p : Proposal} (drainedAt : Int)
    (h : propose settings committedAt planner t = .ok (some p)) :
    ∃ final ended writes calls,
      Execution.drain Undisturbed.host Undisturbed.progress settings drainedAt
        ⟨.memory p.started, [p.started], []⟩ =
          (.ok p.operations.length, ⟨.memory final, writes, calls⟩) ∧
      List.Forall₂ Call.Serves calls p.operations ∧ final.untimed = p.final.untimed ∧
      final.pending = none ∧ final.lastChange = some ended ∧ ended.outcome = .completed ∧
      ended.operations = p.operations := by
  rcases propose_eq_ok_some_iff.1 h with ⟨-, hnonempty, -, hstart, hsim⟩
  have hbegun := (startChange_eq_ok_iff.1 hstart).2.2
  -- The simulation at the time of the drain succeeds as well.
  have hsim' : (p.started.simulate settings drainedAt).map untimed = .ok p.final.untimed := by
    calc (p.started.simulate settings drainedAt).map untimed
      _ = (p.started.simulate settings committedAt).map untimed := by
        rw [hbegun]
        exact simulate_begun_untimed settings t drainedAt committedAt hnonempty
      _ = .ok p.final.untimed := by rw [hsim]; rfl
  have hawaits := awaits_begun (t := t) drainedAt hnonempty
  rw [hbegun, simulate_begun] at hsim'
  rw [hbegun]
  rcases hfold : p.operations.foldlM (carryOut settings drainedAt) (t.begun p.operations) with
    e | final
  · simp [hfold, Except.mapError, Except.map] at hsim'
  · have huntimed : final.untimed = p.final.untimed := by
      simpa [hfold, Except.mapError, Except.map] using hsim'
    rcases Undisturbed.drain_of_carryOut p.operations [t.begun p.operations] [] hawaits hfold with
      ⟨writes, told, htold, hnone, hlast, hdrain⟩
    exact ⟨final, _, writes, [] ++ told, hdrain, htold.serves, huntimed, hnone, hlast, rfl, rfl⟩

/-! ## Agreement -/

/-- A dry run and a commit of a plan with operations fail alike, without a write, or tell alike:
the same current topology, the same operations and, up to the time of the end, the same final
topology.  The dry run writes nothing, and the commit stores just the started change.  Draining
the store then carries out every operation by one call, in the order of the plan, and leaves the
final topology that was promised, with the change on record as completed. -/
theorem dryRun_commit_drain_agree (settings : Settings) (planner : Planner) (t : Topology)
    (operations : List Operation) (plan : planner t = .ok operations)
    (nonempty : operations ≠ []) (rehearsedAt committedAt drainedAt : Int) :
    let dry := (request settings rehearsedAt true planner).run Undisturbed.host
      (Undisturbed.holding t)
    let real := (request settings committedAt false planner).run Undisturbed.host
      (Undisturbed.holding t)
    dry.2 = Undisturbed.holding t ∧
      ((∃ e, dry.1 = .error e ∧ real.1 = .error e ∧ real.2 = Undisturbed.holding t) ∨
        ∃ promised committed started,
          dry.1 = .ok promised ∧ real.1 = .ok committed ∧
          promised.current = t ∧ committed.current = t ∧
          promised.operations = operations ∧ committed.operations = operations ∧
          promised.final.untimed = committed.final.untimed ∧
          t.startChange operations = .ok started ∧
          real.2 = ⟨.memory started, [started], []⟩ ∧
          ∃ final ended writes calls,
            Execution.drain Undisturbed.host Undisturbed.progress settings drainedAt real.2 =
              (.ok operations.length, ⟨.memory final, writes, calls⟩) ∧
            List.Forall₂ Call.Serves calls operations ∧
            final.untimed = promised.final.untimed ∧ final.untimed = committed.final.untimed ∧
            final.pending = none ∧ final.lastChange = some ended ∧
            ended.outcome = .completed ∧ ended.operations = operations) := by
  intro dry real
  rcases propose_untimed settings rehearsedAt committedAt plan nonempty with
    ⟨e, hdry, hreal⟩ | ⟨p, p', hdry, hreal, hfinal⟩
  · have hrunDry : dry = (.error e, Undisturbed.holding t) := run_request_of_error true hdry
    have hrunReal : real = (.error e, Undisturbed.holding t) := run_request_of_error false hreal
    rw [hrunDry, hrunReal]
    exact ⟨rfl, Or.inl ⟨e, rfl, rfl, rfl⟩⟩
  · have hrunDry : dry = (.ok ⟨t, p.final, 0, p.operations⟩, Undisturbed.holding t) :=
      run_dryRun hdry
    have hrunReal : real = (.ok ⟨t, p'.final, pendingId p'.started, p'.operations⟩,
        ⟨.memory p'.started, [p'.started], []⟩) := run_commit hreal
    rcases propose_eq_ok_some_iff.1 hdry with ⟨hplan, -⟩
    rcases propose_eq_ok_some_iff.1 hreal with ⟨hplan', -, -, hstart, -⟩
    have hoperations : p.operations = operations := by
      simpa [plan, eq_comm] using hplan
    have hoperations' : p'.operations = operations := by
      simpa [plan, eq_comm] using hplan'
    rcases drain_of_propose drainedAt hreal with
      ⟨final, ended, writes, calls, hdrain, hserves, huntimed, hnone, hlast, hcompleted, hended⟩
    rw [hoperations'] at hstart hdrain hserves hended
    rw [hrunDry, hrunReal]
    exact ⟨rfl, Or.inr ⟨_, _, p'.started, rfl, rfl, rfl, rfl, hoperations, hoperations', hfinal,
      hstart, rfl, final, ended, writes, calls, hdrain, hserves, huntimed.trans hfinal.symm,
      huntimed, hnone, hlast, hcompleted, hended⟩⟩

/-- Moving a partition from one member to a new one: three operations, dry run, committed and
carried out. -/
theorem dryRun_commit_drain_agree_moving :
    let t := Topology.initial.addMember "a" (Member.active (.ofList [(1, Replica.active 3)]))
    let operations : List Operation :=
      [⟨"b", .joinCluster⟩, ⟨"b", .joinPartition 1 2⟩, ⟨"a", .leavePartition 1⟩]
    Planner.perform operations t = .ok operations ∧ operations ≠ [] ∧
      ∃ promised started final writes calls,
        ((request {} 1 true (.perform operations)).run Undisturbed.host
          (Undisturbed.holding t)).1 = .ok promised ∧
        t.startChange operations = .ok started ∧
        Execution.drain Undisturbed.host Undisturbed.progress {} 3
          ⟨.memory started, [started], []⟩ = (.ok 3, ⟨.memory final, writes, calls⟩) ∧
        List.Forall₂ Call.Serves calls operations ∧
        final.untimed = promised.final.untimed := by
  intro t operations
  have plan : Planner.perform operations t = .ok operations := rfl
  have nonempty : operations ≠ [] := List.cons_ne_nil _ _
  have hsucceeds : ((request {} 1 true (.perform operations)).run Undisturbed.host
      (Undisturbed.holding t)).1.isOk = true := by
    decide +kernel
  have hagree := dryRun_commit_drain_agree {} (.perform operations) t operations plan nonempty 1 2 3
  rcases hagree.2 with
    ⟨e, hdry, -, -⟩ | ⟨promised, committed, started, hdry, -, -, -, -, -, -, hstart, hreal, final,
      ended, writes, calls, hdrain, hserves, hfinal, -⟩
  · rw [hdry] at hsucceeds
    cases hsucceeds
  · rw [hreal] at hdrain
    exact ⟨plan, nonempty, promised, started, final, writes, calls, hdry, hstart, hdrain, hserves,
      hfinal⟩

end Coordinator

end ReplicaCluster
