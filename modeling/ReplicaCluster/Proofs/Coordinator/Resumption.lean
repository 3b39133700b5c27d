import ReplicaCluster.Proofs.Coordinator.Resettlement
import ReplicaCluster.Proofs.Execution.Retry

/-!
# Interrupted operations can be taken up again

An operation may fail after it was marked as under way, any number of times, and its change may be
cancelled after that.  Whatever was written by then is the topology of before, with the operation
marked once or more (`Unreliable.Fails.exists_iterate`).  There the operation passes its check as it
did at first, be it for another attempt or as a change of its own.
-/

namespace ReplicaCluster

open ReplicaCluster.Topology

variable {settings : Settings} {t : Topology} {op : Operation} {prepared : Prepared}

/-! ## Marking an operation again and again -/

namespace Ready

theorem resume_iterate (ready : Ready settings t op prepared) (n : Nat) :
    Ready settings ((prepared.inProgress.apply op.member)^[n] t) op prepared := by
  induction n with
  | zero => exact ready
  | succ n ih =>
      rw [Function.iterate_succ_apply']
      exact ih.resume

/-- A second marking leaves the profile as the first one has made it. -/
theorem alike_inProgress (ready : Ready settings t op prepared) :
    (prepared.inProgress.apply op.member (prepared.inProgress.apply op.member t)).Alike
      (prepared.inProgress.apply op.member t) := by
  refine ⟨fun id => ?_, fun id p => ?_⟩
  · rw [ready.resume.status?_inProgress, ready.status?_inProgress, op.marksStatus_marksStatus]
  · rw [ready.resume.replica?_inProgress, ready.replica?_inProgress, op.marks_marks]

/-- However often an operation was marked, performing it ends alike. -/
theorem alike_perform_iterate (ready : Ready settings t op prepared) (n : Nat) :
    (prepared.perform op.member ((prepared.inProgress.apply op.member)^[n] t)).Alike
      (prepared.perform op.member t) := by
  induction n with
  | zero => exact .refl _
  | succ n ih =>
      rw [Function.iterate_succ_apply']
      exact (ready.resume_iterate n).perform_inProgress.symm.trans ih

end Ready

/-- Updates, however many, leave all but the members and the versions as it is. -/
theorem Update.iterate_apply (u : Update) (m : MemberId) (t : Topology) (n : Nat) :
    ((u.apply m)^[n] t).initialized = t.initialized ∧ ((u.apply m)^[n] t).pending = t.pending ∧
      ((u.apply m)^[n] t).lastChange = t.lastChange := by
  induction n with
  | zero => exact ⟨rfl, rfl, rfl⟩
  | succ n ih => simpa only [Function.iterate_succ_apply', initialized_apply, pending_apply,
      lastChange_apply] using ih

/-! ## Attempts that fail -/

namespace Unreliable

/-- Advancing has failed some number of times in a row. -/
inductive Fails (settings : Settings) :
    Recorded (Scripted Store) → Recorded (Scripted Store) → Prop
  | none {s : Recorded (Scripted Store)} : Fails settings s s
  | again {s s' s'' : Recorded (Scripted Store)} {now : Int} {e : Failure}
      (earlier : Fails settings s s')
      (run : (Execution.advance settings now).run host s' = (.error e, s'')) :
      Fails settings s s''

/-- All that failed attempts leave behind are marks of the operation. -/
theorem Fails.exists_iterate {id : Nat} {rest done : List Operation} {s s' : Recorded (Scripted Store)}
    (h : Fails settings s s') (stored : s.state.state = .memory t)
    (pending : t.pending = some ⟨id, op :: rest, done⟩) (ready : Ready settings t op prepared) :
    ∃ n, s'.state.state = .memory ((prepared.inProgress.apply op.member)^[n] t) := by
  induction h with
  | none => exact ⟨0, stored⟩
  | @again s' s'' now e earlier run ih =>
      rcases ih with ⟨n, hn⟩
      let marked := (prepared.inProgress.apply op.member)^[n] t
      have hpending : marked.pending = some ⟨id, op :: rest, done⟩ := by
        rw [(prepared.inProgress.iterate_apply op.member t n).2.1, pending]
      rcases s' with ⟨⟨store, script⟩, writes, calls⟩
      cases hn
      have hattempt := attempt_advance script writes calls now hpending (ready.resume_iterate n)
      rw [run] at hattempt
      cases hattempt with
      | unmarked fewer => exact ⟨n, rfl⟩
      | marked fewer => exact ⟨n + 1, by rw [Function.iterate_succ_apply']⟩

end Unreliable

/-! ## Cancelling and asking again -/

namespace Coordinator

theorem run_cancel {id : Nat} {rest done : List Operation} (now : Int)
    (initialized : t.initialized) (pending : t.pending = some ⟨id, rest, done⟩) :
    (cancel now id).run Undisturbed.host (Undisturbed.holding t) =
      (.ok (t.cancelChange now), ⟨.memory (t.cancelChange now), [t.cancelChange now], []⟩) := by
  simp [cancel, cancelling, Process.run, Undisturbed.host, Undisturbed.holding, Host.recorded,
    Store.host, Store.update, Store.topology, Store.content, Except.mapError, Except.bind,
    Store.write, initialized, pending]

/-- A single operation that is ready may be asked for, as a dry run or in earnest. -/
theorem exists_run_perform (now : Int) (dryRun : Bool) (initialized : t.initialized)
    (idle : t.pending = none) (ready : Ready settings t op prepared) :
    ∃ answer, ((request settings now dryRun (.perform [op])).run Undisturbed.host
        (Undisturbed.holding t)).1 = .ok answer ∧
      answer.operations = [op] ∧ answer.final.Alike (prepared.perform op.member t) := by
  have hreplay : Replay settings t [op] (prepared.perform op.member t) :=
    .cons ready (.nil (.refl _))
  have hplan : Planner.perform [op] t = .ok [op] := rfl
  rcases propose_of_replay now initialized idle hplan (List.cons_ne_nil _ _) hreplay with
    ⟨p, hpropose, hoperations, -, hfinal⟩
  cases dryRun with
  | true => exact ⟨_, congrArg Prod.fst (run_dryRun hpropose), hoperations, hfinal⟩
  | false => exact ⟨_, congrArg Prod.fst (run_commit hpropose), hoperations, hfinal⟩

/-- An operation that has passed its check passes it once it is marked, with the same outcome.
Marking it again changes nothing but versions, and confirming it after one or more marks leads to
the same topology up to versions.  So an operation whose attempts have all failed may be asked for
anew when its change is cancelled, and leads where it would have led without a failure. -/
theorem interrupted_operation_resumes (settings : Settings) (op : Operation) (t : Topology)
    (prepared : Prepared) (checked : op.prepare settings t = .ok prepared) :
    let mark := prepared.inProgress.apply op.member
    let confirm := prepared.confirmed.apply op.member
    op.prepare settings (mark t) = .ok prepared ∧
    (mark (mark t)).unversioned = (mark t).unversioned ∧
    (∀ n, (confirm (mark^[n + 1] t)).unversioned = (confirm (mark t)).unversioned) ∧
    ∀ (id : Nat) (rest done : List Operation) (start last : Recorded (Scripted Store)),
      t.initialized → t.pending = some ⟨id, op :: rest, done⟩ → start.state.state = .memory t →
      Unreliable.Fails settings start last → ∀ (cancelledAt requestedAt : Int) (dryRun : Bool),
      ∃ failed cancelled answer, last.state.state = .memory failed ∧
        (cancel cancelledAt id).run Undisturbed.host (Undisturbed.holding failed) =
          (.ok cancelled, ⟨.memory cancelled, [cancelled], []⟩) ∧
        ((request settings requestedAt dryRun (.perform [op])).run Undisturbed.host
          (Undisturbed.holding cancelled)).1 = .ok answer ∧
        answer.operations = [op] ∧ answer.final.profile = (confirm (mark t)).profile := by
  intro mark confirm
  have ready : Ready settings t op prepared := Operation.ready_of_prepare checked
  refine ⟨Operation.prepare_of_ready ready.resume, ?_, fun n => ?_, ?_⟩
  · exact unversioned_eq_iff.2 ⟨by simp [mark], ready.alike_inProgress, by simp [mark],
      by simp [mark]⟩
  · rcases prepared.inProgress.iterate_apply op.member t n with ⟨hinitialized, hpending, hlast⟩
    have hperform : (confirm (mark^[n + 1] t)).Alike (confirm (mark t)) := by
      rw [Function.iterate_succ_apply']
      exact ready.alike_perform_iterate n
    refine unversioned_eq_iff.2 ⟨?_, hperform, ?_, ?_⟩
    · simp [confirm, mark, Function.iterate_succ_apply', hinitialized]
    · simp [confirm, mark, Function.iterate_succ_apply', hpending]
    · simp [confirm, mark, Function.iterate_succ_apply', hlast]
  · intro id rest done start last initialized pending stored fails cancelledAt requestedAt dryRun
    rcases fails.exists_iterate stored pending ready with ⟨n, hn⟩
    rcases prepared.inProgress.iterate_apply op.member t n with ⟨hinitialized, hpending, -⟩
    let failed := mark^[n] t
    have hfailed : failed.pending = some ⟨id, op :: rest, done⟩ := hpending.trans pending
    have hinit : failed.initialized := by rw [hinitialized]; exact initialized
    let cancelled := failed.cancelChange cancelledAt
    have hcancelled : cancelled.initialized ∧ cancelled.pending = none ∧
        failed.members = cancelled.members := by
      simp [cancelled, cancelChange, hfailed, hinit]
    -- Cancelling touches no member, so the operation is ready as it was for the next attempt.
    have hready : Ready settings cancelled op prepared :=
      (ready.resume_iterate n).congr hcancelled.2.2
    rcases exists_run_perform requestedAt dryRun hcancelled.1 hcancelled.2.1 hready with
      ⟨answer, hanswer, hoperations, hfinal⟩
    refine ⟨failed, cancelled, answer, hn, run_cancel cancelledAt hinit hfailed, hanswer,
      hoperations, profile_eq_iff.2 (hfinal.trans ?_)⟩
    have hlike : (prepared.perform op.member failed).Alike
        (prepared.perform op.member cancelled) :=
      (ready.resume_iterate n).alike_perform (.of_members hcancelled.2.2)
    exact hlike.symm.trans (ready.alike_perform_iterate n)

/-- A join that the new host fails twice, then cancelled and asked for again. -/
theorem interrupted_operation_resumes_join :
    let t : Topology := { (Topology.initial.addMember "a"
        (.active (.ofList [(1, Replica.active 3)]))).addMember "b" (.active ∅) with
      pending := some ⟨4, [⟨"b", .joinPartition 1 2⟩, ⟨"a", .leavePartition 1⟩], []⟩ }
    let op : Operation := ⟨"b", .joinPartition 1 2⟩
    let prepared : Prepared := ⟨.replicaJoining 1 2, .join "b" 1 (.ofList [("a", 3), ("b", 2)]),
      .replicaActive 1⟩
    let failure : Failure := ⟨.internal, "unreachable"⟩
    let start : Recorded (Scripted Store) :=
      ⟨⟨.memory t, [none, none, some failure, none, none, some failure]⟩, [], []⟩
    op.prepare {} t = .ok prepared ∧ t.initialized ∧
      ∃ last failed cancelled answer, Unreliable.Fails {} start last ∧
        last.calls = [prepared.call, prepared.call] ∧ last.state.state = .memory failed ∧
        failed.replica? "b" 1 = some (.joining 2) ∧
        ((cancel 7 4).run Undisturbed.host (Undisturbed.holding failed)).1 = .ok cancelled ∧
        ((request {} 8 false (.perform [op])).run Undisturbed.host
          (Undisturbed.holding cancelled)).1 = .ok answer ∧ answer.operations = [op] := by
  intro t op prepared failure start
  have checked : op.prepare {} t = .ok prepared := by decide +kernel
  let first := (Execution.advance {} 5).run Unreliable.host start
  let second := (Execution.advance {} 6).run Unreliable.host first.2
  have hfirst : first.1 = .error failure := by decide +kernel
  have hsecond : second.1 = .error failure := by decide +kernel
  have fails : Unreliable.Fails {} start second.2 :=
    .again (.again .none (Prod.ext hfirst rfl)) (Prod.ext hsecond rfl)
  have hcalls : second.2.calls = [prepared.call, prepared.call] := by decide +kernel
  rcases (interrupted_operation_resumes {} op t prepared checked).2.2.2 4 [⟨"a", .leavePartition 1⟩]
    [] start second.2 rfl rfl rfl fails 7 8 false with
    ⟨failed, cancelled, answer, hfailed, hcancel, hanswer, hoperations, -⟩
  have hjoining : second.2.state.state.topology.map (·.replica? "b" 1) =
      .ok (some (.joining 2)) := by
    decide +kernel
  rw [hfailed] at hjoining
  exact ⟨checked, rfl, second.2, failed, cancelled, answer, fails, hcalls, hfailed,
    Except.ok.inj hjoining, by rw [hcancel], hanswer, hoperations⟩

end Coordinator

end ReplicaCluster
