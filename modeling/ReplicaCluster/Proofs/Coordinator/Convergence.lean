import ReplicaCluster.Proofs.Coordinator.Agreement
import ReplicaCluster.Proofs.Execution.Retry

/-!
# Retries of a committed change converge

A change that was committed is carried out as it was simulated even if the store and the members
fail now and then.  Each failure costs one more attempt at most, and no operation is skipped,
repeated after its successor or carried out by another call than before.
-/

namespace ReplicaCluster

namespace Coordinator

open ReplicaCluster.Topology

variable {settings : Settings} {planner : Planner} {t : Topology} {committedAt : Int}
  {answer : ChangeResult} {committed : Recorded Store}

/-- A request that has stored a change answers with the proposal that it stored. -/
theorem exists_proposal_of_commit
    (commits : (request settings committedAt false planner).run Undisturbed.host
      (Undisturbed.holding t) = (.ok answer, committed))
    (nonempty : answer.operations ≠ []) :
    ∃ p, propose settings committedAt planner t = .ok (some p) ∧
      answer = ⟨t, p.final, pendingId p.started, p.operations⟩ ∧
      committed = ⟨.memory p.started, [p.started], []⟩ := by
  cases hpropose : propose settings committedAt planner t with
  | error e =>
      rw [run_request_of_error false hpropose] at commits
      cases commits
  | ok proposed =>
      cases proposed with
      | none =>
          have hnone : answer.operations = [] := by
            simp only [request, Process.run, Undisturbed.host, Undisturbed.holding, Host.recorded,
              Store.host, Store.topology, Store.content, Except.mapError, hpropose, Prod.mk.injEq,
              Except.ok.injEq] at commits
            rw [← commits.1]
          exact absurd hnone nonempty
      | some p =>
          rw [run_commit hpropose] at commits
          cases commits
          exact ⟨p, rfl, rfl, rfl⟩

/-- Where carrying out a change leads, in the simulation and on the store alike. -/
theorem inPursuit_of_propose {p : Proposal} (script : List (Option Failure))
    (h : propose settings committedAt planner t = .ok (some p)) :
    InPursuit settings (pendingId p.started) p.operations p.final p.operations
      ⟨⟨.memory p.started, script⟩, [], []⟩ := by
  rcases propose_eq_ok_some_iff.1 h with ⟨-, hnonempty, -, hstart, hsim⟩
  have hbegun := (startChange_eq_ok_iff.1 hstart).2.2
  have hawaits := awaits_begun (t := t) committedAt hnonempty
  rw [hbegun, simulate_begun_eq_ok_iff] at hsim
  have hall : (t.begun p.operations).Awaits committedAt t.nextChangeId [] (p.operations ++ []) := by
    simpa only [List.append_nil] using hawaits
  have hreplay := Replay.of_foldlM hall hsim
  rw [hbegun]
  exact ⟨t.begun p.operations, [], rfl, rfl, ⟨committedAt, hawaits⟩, hreplay, [], [], .nil, rfl,
    by simp⟩

/-- However the steps that carry out a committed change fail, every drain of the store comes to an
end, and as soon as there were more drains than failures the change is completed with exactly the
planned operations.  The members are then those of the simulated topology, up to their versions.
The calls made over all attempts are one streak for each operation, in the order of the plan. -/
theorem retries_converge (settings : Settings) (planner : Planner) (t : Topology)
    (committedAt : Int) (answer : ChangeResult) (committed : Recorded Store)
    (commits : (request settings committedAt false planner).run Undisturbed.host
      (Undisturbed.holding t) = (.ok answer, committed))
    (nonempty : answer.operations ≠ []) (script : List (Option Failure)) (times : List Int)
    (enough : failureCount script < times.length) :
    let start : Recorded (Scripted Store) := ⟨⟨committed.state, script⟩, [], []⟩
    let last := Unreliable.retry settings times start
    (∀ earlier now later, times = earlier ++ now :: later →
      let s := Unreliable.retry settings earlier start
      Execution.Drains Unreliable.host settings now s
        (Execution.drain Unreliable.host Unreliable.progress settings now s)) ∧
      ∃ final endedAt streaks,
        last.state.state = .memory final ∧ final.pending = none ∧
        final.lastChange = some ⟨answer.changeId, .completed, answer.operations, endedAt⟩ ∧
        final.profile = answer.final.profile ∧
        List.Forall₂ Streak.Serves streaks answer.operations ∧
        last.calls = streaks.flatMap Streak.calls := by
  intro start last
  rcases exists_proposal_of_commit commits nonempty with ⟨p, hpropose, rfl, rfl⟩
  rcases (inPursuit_of_propose script hpropose).retry times with
    ⟨hdrains, rest, -, ⟨final, done, hstored, hplan, hpursued⟩, hfinished⟩
  refine ⟨hdrains, ?_⟩
  have hrest : rest = [] := hfinished enough
  subst hrest
  have hdone : done = p.operations := by simpa using hplan
  subst hdone
  rcases hpursued.awaits with ⟨endedAt, hawaits⟩
  rw [Awaits, if_pos rfl] at hawaits
  -- Nothing is left, so no call was made for an operation that is still to do.
  rcases hpursued.told with ⟨streaks, again, hserves, hcalls, hagain⟩
  have hnone : again = [] := by
    refine List.eq_nil_iff_forall_not_mem.2 ?_
    intro call hcall
    rcases hagain call hcall with ⟨op, rest, prepared, hrest, -⟩
    cases hrest
  exact ⟨final, endedAt, streaks, hstored, hawaits.1, hawaits.2,
    profile_eq_iff.2 hpursued.replay.alike_of_nil, hserves, by simpa [hnone] using hcalls⟩

/-- Moving a partition to a new member, while a read, a call and the write that confirms the
operation after it fail. -/
theorem retries_converge_moving :
    let t := Topology.initial.addMember "a" (Member.active (.ofList [(1, Replica.active 3)]))
    let operations : List Operation :=
      [⟨"b", .joinCluster⟩, ⟨"b", .joinPartition 1 2⟩, ⟨"a", .leavePartition 1⟩]
    let failure : Failure := ⟨.internal, "unreachable"⟩
    let script := [some failure, none, none, some failure, none, none, none, none, none, none,
      none, some failure]
    failureCount script < [2, 3, 4, 5].length ∧
      ∃ answer committed final endedAt streaks,
        (request {} 1 false (.perform operations)).run Undisturbed.host
          (Undisturbed.holding t) = (.ok answer, committed) ∧
        answer.operations = operations ∧
        (Unreliable.retry {} [2, 3, 4, 5] ⟨⟨committed.state, script⟩, [], []⟩).state.state =
          .memory final ∧
        final.lastChange = some ⟨1, .completed, operations, endedAt⟩ ∧
        final.profile = answer.final.profile ∧ List.Forall₂ Streak.Serves streaks operations := by
  intro t operations failure script
  have enough : failureCount script < [2, 3, 4, 5].length := by decide
  let outcome := (request {} 1 false (.perform operations)).run Undisturbed.host
    (Undisturbed.holding t)
  have hsucceeds : outcome.1.toOption.map (fun answer => (answer.operations, answer.changeId)) =
      some (operations, 1) := by
    decide +kernel
  rcases hrun : outcome with ⟨e | answer, committed⟩
  · rw [hrun] at hsucceeds
    cases hsucceeds
  · have hanswer : answer.operations = operations ∧ answer.changeId = 1 := by
      simpa [hrun, Except.toOption] using hsucceeds
    have nonempty : answer.operations ≠ [] := by simp [hanswer.1, operations]
    rcases (retries_converge {} (.perform operations) t 1 answer committed hrun nonempty script
      [2, 3, 4, 5] enough).2 with
      ⟨final, endedAt, streaks, hstored, -, hlast, hprofile, hserves, -⟩
    rw [hanswer.1] at hlast hserves
    rw [hanswer.2] at hlast
    exact ⟨enough, answer, committed, final, endedAt, streaks, hrun, hanswer.1, hstored, hlast,
      hprofile, hserves⟩

end Coordinator

end ReplicaCluster
