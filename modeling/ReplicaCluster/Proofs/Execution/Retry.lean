import ReplicaCluster.Proofs.Execution.Replay

/-!
# Carrying out a change in spite of failures

The store and the members may fail, at steps that are laid down beforehand.  A failure ends the
drain that it strikes and leaves the change pending, with its next operation marked at most.  The
next drain takes that operation up again: the check hands out the same call, and confirming it
leads to the same profile.  So what is left of the change can be replayed to the planned topology
at any time (`Pursued`), and every drain either comes to the end or uses up a failure
(`InPursuit.drain`).
-/

namespace ReplicaCluster

/-! ## Hosts that fail as laid down -/

/-- The state of a host, with the failures that strike its next steps.  After the end of the script
nothing fails. -/
structure Scripted (σ : Type) where
  state : σ
  script : List (Option Failure)

/-- The number of failures in a script. -/
def failureCount (script : List (Option Failure)) : Nat := script.countP Option.isSome

namespace Scripted

variable {σ α : Type}

/-- Takes one step, unless a failure is due; a failure has no effect of its own. -/
def step (act : σ → Except Failure α × σ) (s : Scripted σ) : Except Failure α × Scripted σ :=
  match s.script with
  | some f :: rest => (.error f, ⟨s.state, rest⟩)
  | none :: rest => ((act s.state).1, ⟨(act s.state).2, rest⟩)
  | [] => ((act s.state).1, ⟨(act s.state).2, []⟩)

theorem step_cases {act : σ → Except Failure α × σ} {result : Except Failure α} {state state' : σ}
    (h : act state = (result, state')) (script : List (Option Failure)) :
    (∃ f rest, failureCount rest < failureCount script ∧
      step act ⟨state, script⟩ = (.error f, ⟨state, rest⟩)) ∨
    ∃ rest, failureCount rest = failureCount script ∧
      step act ⟨state, script⟩ = (result, ⟨state', rest⟩) := by
  cases script with
  | nil => exact Or.inr ⟨[], rfl, by simp only [step, h]⟩
  | cons due rest =>
      cases due with
      | none => exact Or.inr ⟨rest, by simp [failureCount], by simp only [step, h]⟩
      | some f => exact Or.inl ⟨f, rest, by simp [failureCount], rfl⟩

end Scripted

def Host.scripted {σ : Type} (host : Host σ) : Host (Scripted σ) where
  read := Scripted.step host.read
  update revise := Scripted.step (host.update revise)
  call c := Scripted.step (host.call c)

/-! ## Draining without a measure -/

namespace Execution

variable {σ : Type} {host : Host σ} {progress : σ → Progress} {settings : Settings} {now : Int}
  {s s' : σ} {op : Operation} {e : Failure}

/-- Advancing again and again comes to an end, for whatever reason. -/
inductive Drains (host : Host σ) (settings : Settings) (now : Int) :
    σ → Except Failure Nat × σ → Prop
  | failed {s s' : σ} {e : Failure} (run : (advance settings now).run host s = (.error e, s')) :
      Drains host settings now s (.error e, s')
  | idle {s s' : σ} (run : (advance settings now).run host s = (.ok none, s')) :
      Drains host settings now s (.ok 0, s')
  | again {s s' : σ} {op : Operation} {result : Except Failure Nat × σ}
      (run : (advance settings now).run host s = (.ok (some op), s'))
      (tail : Drains host settings now s' result) :
      Drains host settings now s (result.1.map (· + 1), result.2)

theorem drain_of_error (run : (advance settings now).run host s = (.error e, s')) :
    drain host progress settings now s = (.error e, s') := by
  rw [drain, run]

theorem drain_of_none (run : (advance settings now).run host s = (.ok none, s')) :
    drain host progress settings now s = (.ok 0, s') := by
  rw [drain, run]

theorem drain_of_some (run : (advance settings now).run host s = (.ok (some op), s'))
    (before : (progress s').Before (progress s)) :
    drain host progress settings now s =
      ((drain host progress settings now s').1.map (· + 1),
        (drain host progress settings now s').2) := by
  rw [drain, run]
  simp only [before, if_true]
  rcases drain host progress settings now s' with ⟨result, s''⟩
  cases result <;> rfl

end Execution

/-! ## The unreliable store -/

namespace Unreliable

open ReplicaCluster.Topology

variable {settings : Settings} {t t' : Topology} {now : Int} {id : Nat} {op : Operation}
  {prepared : Prepared} {done rest : List Operation}

/-- A store in memory that nobody else works on, and its members, which all may fail. -/
def host : Host (Recorded (Scripted Store)) := Store.host.scripted.recorded

def progress (s : Recorded (Scripted Store)) : Progress :=
  Undisturbed.progress ⟨s.state.state, s.writes, s.calls⟩

/-- Drains the store at each of the given times, whatever comes of it. -/
def retry (settings : Settings) (times : List Int) (s : Recorded (Scripted Store)) :
    Recorded (Scripted Store) :=
  times.foldl (fun s now => (Execution.drain host progress settings now s).2) s

variable (script : List (Option Failure)) (writes : List Topology) (calls : List Call)

theorem read_cases :
    (∃ f script', failureCount script' < failureCount script ∧
      host.read ⟨⟨.memory t, script⟩, writes, calls⟩ =
        (.error f, ⟨⟨.memory t, script'⟩, writes, calls⟩)) ∨
    ∃ script', failureCount script' = failureCount script ∧
      host.read ⟨⟨.memory t, script⟩, writes, calls⟩ =
        (.ok t, ⟨⟨.memory t, script'⟩, writes, calls⟩) := by
  have hact : Store.host.read (.memory t) = (.ok t, .memory t) := rfl
  rcases Scripted.step_cases hact script with
    ⟨f, script', hfewer, hstep⟩ | ⟨script', hsame, hstep⟩
  · exact Or.inl ⟨f, script', hfewer, by simp only [host, Host.recorded, Host.scripted, hstep]⟩
  · exact Or.inr ⟨script', hsame, by simp only [host, Host.recorded, Host.scripted, hstep]⟩

theorem update_cases {revise : Revision} (h : revise t = .ok t') :
    (∃ f script', failureCount script' < failureCount script ∧
      host.update revise ⟨⟨.memory t, script⟩, writes, calls⟩ =
        (.error f, ⟨⟨.memory t, script'⟩, writes, calls⟩)) ∨
    ∃ script', failureCount script' = failureCount script ∧
      host.update revise ⟨⟨.memory t, script⟩, writes, calls⟩ =
        (.ok t', ⟨⟨.memory t', script'⟩, writes ++ [t'], calls⟩) := by
  have hact : Store.host.update revise (.memory t) = (.ok t', .memory t') := by
    simp [Store.host, Store.update, Store.topology, Store.content, Except.mapError, Except.bind, h,
      Store.write]
  rcases Scripted.step_cases hact script with
    ⟨f, script', hfewer, hstep⟩ | ⟨script', hsame, hstep⟩
  · exact Or.inl ⟨f, script', hfewer, by simp only [host, Host.recorded, Host.scripted, hstep]⟩
  · exact Or.inr ⟨script', hsame, by simp only [host, Host.recorded, Host.scripted, hstep]⟩

theorem call_cases (c : Call) :
    (∃ f script', failureCount script' < failureCount script ∧
      host.call c ⟨⟨.memory t, script⟩, writes, calls⟩ =
        (.error f, ⟨⟨.memory t, script'⟩, writes, calls ++ [c]⟩)) ∨
    ∃ script', failureCount script' = failureCount script ∧
      host.call c ⟨⟨.memory t, script⟩, writes, calls⟩ =
        (.ok (), ⟨⟨.memory t, script'⟩, writes, calls ++ [c]⟩) := by
  have hact : Store.host.call c (.memory t) = (.ok (), .memory t) := rfl
  rcases Scripted.step_cases hact script with
    ⟨f, script', hfewer, hstep⟩ | ⟨script', hsame, hstep⟩
  · exact Or.inl ⟨f, script', hfewer, by simp only [host, Host.recorded, Host.scripted, hstep]⟩
  · exact Or.inr ⟨script', hsame, by simp only [host, Host.recorded, Host.scripted, hstep]⟩

/-! ## One attempt at an operation -/

/-- How an attempt at the next operation may end: before the operation is marked, between its two
writes, or with the operation confirmed. -/
inductive Attempt (now : Int) (t : Topology) (c : PendingChange) (op : Operation)
    (prepared : Prepared) (script : List (Option Failure)) (calls : List Call) :
    Except Failure (Option Operation) × Recorded (Scripted Store) → Prop
  | unmarked {f : Failure} {script' : List (Option Failure)} {writes' : List Topology}
      (fewer : failureCount script' < failureCount script) :
      Attempt now t c op prepared script calls
        (.error f, ⟨⟨.memory t, script'⟩, writes', calls⟩)
  | marked {f : Failure} {script' : List (Option Failure)} {writes' : List Topology}
      (fewer : failureCount script' < failureCount script) :
      Attempt now t c op prepared script calls
        (.error f, ⟨⟨.memory (prepared.inProgress.apply op.member t), script'⟩, writes',
          calls ++ [prepared.call]⟩)
  | confirmed {script' : List (Option Failure)} {writes' : List Topology}
      (same : failureCount script' = failureCount script) :
      Attempt now t c op prepared script calls
        (.ok (some op), ⟨⟨.memory ((prepared.inProgress.apply op.member t).advanced now op.member
          prepared.confirmed c), script'⟩, writes', calls ++ [prepared.call]⟩)

theorem attempt_advance (now : Int) (hpending : t.pending = some ⟨id, op :: rest, done⟩)
    (ready : Ready settings t op prepared) :
    Attempt now t ⟨id, op :: rest, done⟩ op prepared script calls
      ((Execution.advance settings now).run host ⟨⟨.memory t, script⟩, writes, calls⟩) := by
  let marked := prepared.inProgress.apply op.member t
  have hprepare := Operation.prepare_of_ready ready
  have hnext : t.next? = some op := next?_eq_some_iff.2 ⟨_, rest, hpending, rfl⟩
  have hstart : Execution.starting id op prepared t = .ok marked :=
    Execution.starting_of_pending prepared hpending
  have hfinish : Execution.finishing now id op prepared marked =
      .ok (marked.advanced now op.member prepared.confirmed ⟨id, op :: rest, done⟩) :=
    Execution.finishing_of_pending now prepared hpending
  -- The four steps in turn, each of which may fail.
  rcases read_cases (t := t) script writes calls with
    ⟨f, script₁, hfewer₁, hread⟩ | ⟨script₁, hsame₁, hread⟩
  · simp only [Execution.advance, Process.run, hread]
    exact .unmarked hfewer₁
  · rcases update_cases script₁ writes calls hstart with
      ⟨f, script₂, hfewer₂, hmark⟩ | ⟨script₂, hsame₂, hmark⟩
    · simp only [Execution.advance, Process.run, hread, hpending, hnext, hprepare, hmark]
      exact .unmarked (by omega)
    · rcases call_cases (t := marked) script₂ (writes ++ [marked]) calls prepared.call with
        ⟨f, script₃, hfewer₃, hcall⟩ | ⟨script₃, hsame₃, hcall⟩
      · simp only [Execution.advance, Process.run, hread, hpending, hnext, hprepare, hmark, hcall]
        exact .marked (by omega)
      · rcases update_cases script₃ (writes ++ [marked]) (calls ++ [prepared.call]) hfinish with
          ⟨f, script₄, hfewer₄, hconfirm⟩ | ⟨script₄, hsame₄, hconfirm⟩
        · simp only [Execution.advance, Process.run, hread, hpending, hnext, hprepare, hmark,
            hcall, hconfirm]
          exact .marked (by omega)
        · simp only [Execution.advance, Process.run, hread, hpending, hnext, hprepare, hmark,
            hcall, hconfirm]
          exact .confirmed (by omega)

theorem advance_idle (now : Int) (hpending : t.pending = none) :
    ∃ result script', (result = .ok none ∨ ∃ f, result = .error f ∧
        failureCount script' < failureCount script) ∧
      (Execution.advance settings now).run host ⟨⟨.memory t, script⟩, writes, calls⟩ =
        (result, ⟨⟨.memory t, script'⟩, writes, calls⟩) := by
  rcases read_cases (t := t) script writes calls with
    ⟨f, script', hfewer, hread⟩ | ⟨script', hsame, hread⟩
  · exact ⟨.error f, script', Or.inr ⟨f, rfl, hfewer⟩, by
      simp only [Execution.advance, Process.run, hread]⟩
  · exact ⟨.ok none, script', Or.inl rfl, by
      simp only [Execution.advance, Process.run, hread, hpending]⟩

end Unreliable

/-! ## A change that is pursued -/

/-- A call that is made several times in a row. -/
structure Streak where
  call : Call
  length : Nat

namespace Streak

def calls (s : Streak) : List Call := List.replicate s.length s.call

/-- The call is the one by which the operation is carried out, and it is made at least once. -/
def Serves (s : Streak) (op : Operation) : Prop := s.call.Serves op ∧ 0 < s.length

end Streak

/-- What holds between two attempts at a change: what is left of it can be replayed to the goal,
each operation that is done was called for in one streak, and the next one may have been called for
already, by the call that its check hands out now. -/
structure Pursued (settings : Settings) (id : Nat) (goal : Topology) (done rest : List Operation)
    (t : Topology) (calls : List Call) : Prop where
  awaits : ∃ endedAt, t.Awaits endedAt id done rest
  replay : Replay settings t rest goal
  told : ∃ streaks again, List.Forall₂ Streak.Serves streaks done ∧
    calls = streaks.flatMap Streak.calls ++ again ∧
    ∀ call ∈ again, ∃ op rest' prepared, rest = op :: rest' ∧ Ready settings t op prepared ∧
      prepared.call = call

namespace Pursued

open ReplicaCluster.Topology

variable {settings : Settings} {t goal : Topology} {now : Int} {id : Nat} {op : Operation}
  {prepared : Prepared} {done rest : List Operation} {calls : List Call}

theorem pending (h : Pursued settings id goal done (op :: rest) t calls) :
    t.pending = some ⟨id, op :: rest, done⟩ := by
  rcases h.awaits with ⟨endedAt, hawaits⟩
  exact awaits_cons_iff.1 hawaits

/-- All calls for the next operation so far are the one that its check hands out now. -/
theorem told_again (h : Pursued settings id goal done (op :: rest) t calls)
    (ready : Ready settings t op prepared) :
    ∃ streaks count, List.Forall₂ Streak.Serves streaks done ∧
      calls = streaks.flatMap Streak.calls ++ List.replicate count prepared.call := by
  rcases h.told with ⟨streaks, again, hserves, hcalls, hagain⟩
  refine ⟨streaks, again.length, hserves, ?_⟩
  have hsame : again = List.replicate again.length prepared.call := by
    refine List.eq_replicate_iff.2 ⟨rfl, ?_⟩
    intro call hcall
    rcases hagain call hcall with ⟨op', rest', prepared', hrest, ready', rfl⟩
    cases hrest
    rw [ready'.unique ready]
  rwa [hsame] at hcalls

theorem marked (h : Pursued settings id goal done (op :: rest) t calls)
    (ready : Ready settings t op prepared) :
    Pursued settings id goal done (op :: rest) (prepared.inProgress.apply op.member t)
      (calls ++ [prepared.call]) := by
  rcases h.told_again ready with ⟨streaks, count, hserves, hcalls⟩
  refine ⟨⟨0, awaits_cons_iff.2 ?_⟩, h.replay.marked ready, streaks,
    List.replicate (count + 1) prepared.call, hserves, ?_, ?_⟩
  · simpa only [Update.pending_apply] using h.pending
  · rw [hcalls, List.append_assoc, List.replicate_succ']
  · intro call hcall
    exact ⟨op, rest, prepared, rfl, ready.resume, (List.eq_of_mem_replicate hcall).symm⟩

theorem confirmed (h : Pursued settings id goal done (op :: rest) t calls)
    (ready : Ready settings t op prepared) (now : Int) :
    Pursued settings id goal (done ++ [op]) rest
      ((prepared.inProgress.apply op.member t).advanced now op.member prepared.confirmed
        ⟨id, op :: rest, done⟩) (calls ++ [prepared.call]) := by
  rcases h.told_again ready with ⟨streaks, count, hserves, hcalls⟩
  refine ⟨⟨now, awaits_advanced _ _ rfl⟩, ?_, streaks ++ [⟨prepared.call, count + 1⟩], [], ?_, ?_,
    by simp⟩
  · exact (h.replay.tail ready).alike_left (.of_members (members_advanced _ _ _).symm)
  · exact List.rel_append hserves (.cons ⟨ready.call_serves, Nat.succ_pos count⟩ .nil)
  · simp [hcalls, Streak.calls, List.replicate_succ']

end Pursued

/-! ## Draining again and again -/

/-- The store holds a plan of which this is left, and the plan is pursued. -/
def InPursuit (settings : Settings) (id : Nat) (plan : List Operation) (goal : Topology)
    (rest : List Operation) (s : Recorded (Scripted Store)) : Prop :=
  ∃ t done, s.state.state = .memory t ∧ done ++ rest = plan ∧
    Pursued settings id goal done rest t s.calls

namespace InPursuit

open Unreliable ReplicaCluster.Topology

variable {settings : Settings} {goal : Topology} {id : Nat} {plan rest : List Operation}
  {s : Recorded (Scripted Store)}

/-- A drain comes to an end, with nothing left to do or one failure less to come. -/
theorem drain (now : Int) (h : InPursuit settings id plan goal rest s) :
    Execution.Drains host settings now s (Execution.drain host progress settings now s) ∧
      ∃ rest', rest' <:+ rest ∧
        InPursuit settings id plan goal rest' (Execution.drain host progress settings now s).2 ∧
        (rest' = [] ∨
          failureCount (Execution.drain host progress settings now s).2.state.script <
            failureCount s.state.script) := by
  -- By induction on what is left to do, for every store that holds it.
  induction rest generalizing s with
  | nil =>
      rcases s with ⟨⟨store, script⟩, writes, calls⟩
      rcases h with ⟨t, done, hstore, hplan, hpursued⟩
      cases hstore
      have hidle : t.pending = none := by
        rcases hpursued.awaits with ⟨endedAt, hawaits⟩
        rw [Awaits, if_pos rfl] at hawaits
        exact hawaits.1
      rcases advance_idle script writes calls now hidle with ⟨result, script', hresult, hrun⟩
      have hpursuit : InPursuit settings id plan goal []
          ⟨⟨.memory t, script'⟩, writes, calls⟩ := ⟨t, done, rfl, hplan, hpursued⟩
      rcases hresult with rfl | ⟨f, rfl, -⟩
      · rw [Execution.drain_of_none hrun]
        exact ⟨.idle hrun, [], List.suffix_rfl, hpursuit, Or.inl rfl⟩
      · rw [Execution.drain_of_error hrun]
        exact ⟨.failed hrun, [], List.suffix_rfl, hpursuit, Or.inl rfl⟩
  | cons op rest ih =>
      rcases s with ⟨⟨store, script⟩, writes, calls⟩
      rcases h with ⟨t, done, hstore, hplan, hpursued⟩
      cases hstore
      rcases hpursued.replay with _ | @⟨_, _, _, prepared, _, ready, -⟩
      have hattempt := attempt_advance script writes calls now hpursued.pending ready
      generalize hrun : (Execution.advance settings now).run host
        ⟨⟨.memory t, script⟩, writes, calls⟩ = outcome at hattempt
      cases hattempt with
      | unmarked fewer =>
          rw [Execution.drain_of_error hrun]
          exact ⟨.failed hrun, op :: rest, List.suffix_rfl, ⟨t, done, rfl, hplan, hpursued⟩,
            Or.inr fewer⟩
      | marked fewer =>
          rw [Execution.drain_of_error hrun]
          exact ⟨.failed hrun, op :: rest, List.suffix_rfl,
            ⟨_, done, rfl, hplan, hpursued.marked ready⟩, Or.inr fewer⟩
      | @confirmed script' writes' same =>
          let marked := prepared.inProgress.apply op.member t
          let final := marked.advanced now op.member prepared.confirmed ⟨id, op :: rest, done⟩
          let s' : Recorded (Scripted Store) :=
            ⟨⟨.memory final, script'⟩, writes', calls ++ [prepared.call]⟩
          have hawaits : final.Awaits now id (done ++ [op]) rest := awaits_advanced _ _ rfl
          have hbefore : (progress s').Before (progress ⟨⟨.memory t, script⟩, writes, calls⟩) :=
            Undisturbed.progress_before hpursued.pending hawaits
          have hlater : InPursuit settings id plan goal rest s' :=
            ⟨final, done ++ [op], rfl, by simpa using hplan, hpursued.confirmed ready now⟩
          rcases ih hlater with ⟨hdrains, rest', hsuffix, hpursuit, hend⟩
          rw [Execution.drain_of_some hrun hbefore]
          refine ⟨.again hrun hdrains, rest', hsuffix.trans (List.suffix_cons op rest), hpursuit, ?_⟩
          exact hend.imp_right fun hfewer => hfewer.trans_eq same

/-- Every drain comes to an end, and more drains than there are failures finish the change. -/
theorem retry (times : List Int) (h : InPursuit settings id plan goal rest s) :
    (∀ earlier now later, times = earlier ++ now :: later →
      Execution.Drains host settings now (retry settings earlier s)
        (Execution.drain host progress settings now (retry settings earlier s))) ∧
      ∃ rest', rest' <:+ rest ∧ InPursuit settings id plan goal rest' (retry settings times s) ∧
        (failureCount s.state.script < times.length → rest' = []) := by
  induction times generalizing rest s with
  | nil =>
      refine ⟨fun earlier now later hsplit => ?_, rest, List.suffix_rfl, h, fun hlt => ?_⟩
      · simp at hsplit
      · simp at hlt
  | cons now times ih =>
      rcases h.drain now with ⟨hdrains, rest', hsuffix, hpursuit, hend⟩
      rcases ih hpursuit with ⟨hlater, rest'', hsuffix', hpursuit', hfinished⟩
      refine ⟨fun earlier now' later hsplit => ?_, rest'', hsuffix'.trans hsuffix, hpursuit', ?_⟩
      · cases earlier with
        | nil =>
            cases hsplit
            exact hdrains
        | cons first earlier =>
            cases hsplit
            exact hlater earlier now' later rfl
      · intro hlt
        rcases hend with rfl | hfewer
        · exact List.suffix_nil.1 hsuffix'
        · exact hfinished (by simp only [List.length_cons] at hlt; omega)

end InPursuit

end ReplicaCluster
