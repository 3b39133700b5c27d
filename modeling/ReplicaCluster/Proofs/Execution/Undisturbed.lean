import ReplicaCluster.Execution.Simulation
import ReplicaCluster.Proofs.Execution.Readiness
import ReplicaCluster.Proofs.Topology.Ledger
import ReplicaCluster.Store

/-!
# Carrying out a change that nothing disturbs

On a store that nobody else works on and with members that comply, the four steps of an operation
come to the same as `Topology.carryOut`, which carries it out in memory.  So draining such a store
ends where the simulation of the change ends (`Undisturbed.drain_of_carryOut`).
-/

namespace ReplicaCluster

/-! ## Hosts with a record -/

/-- The state of a host, with what was written to its store and what its members were told. -/
structure Recorded (σ : Type) where
  state : σ
  writes : List Topology
  calls : List Call

def Host.recorded {σ : Type} (host : Host σ) : Host (Recorded σ) where
  read r :=
    match host.read r.state with
    | (result, state) => (result, { r with state })
  update revise r :=
    match host.update revise r.state with
    | (.ok t, state) => (.ok t, { r with state, writes := r.writes ++ [t] })
    | (.error e, state) => (.error e, { r with state })
  call c r :=
    match host.call c r.state with
    | (result, state) => (result, { r with state, calls := r.calls ++ [c] })

/-- Whether a call is the one by which an operation is carried out.  What the call says beyond the
operation, the other hosts of a partition, is looked up when the operation is prepared. -/
def Call.Serves : Call → Operation → Prop
  | .addMember m, op => op = ⟨m, .joinCluster⟩
  | .removeMember m, op => op = ⟨m, .leaveCluster⟩
  | .join m p hosts, op =>
      ∃ priority, hosts[m]? = some priority ∧ op = ⟨m, .joinPartition p priority⟩
  | .leave m p, op => op = ⟨m, .leavePartition p⟩
  | .setPriority m p priority, op => op = ⟨m, .setPriority p priority⟩
  | .forceReconfigure m p _ bootstrap, op => op = ⟨m, .forceReconfigure p bootstrap⟩
  | .overwriteHosts m p priorities, op =>
      ∃ hosts, priorities = .descending hosts ∧ op = ⟨m, .overwriteHosts p hosts⟩

theorem Ready.call_serves {settings : Settings} {t : Topology} {op : Operation}
    {prepared : Prepared} (ready : Ready settings t op prepared) : prepared.call.Serves op := by
  cases ready with
  | joinPartition active filling others => exact ⟨_, by simp, rfl⟩
  | overwriteHosts coordinator nonempty nodup known => exact ⟨_, rfl, rfl⟩
  | _ => rfl

/-! ## One operation in memory -/

namespace Topology

variable {settings : Settings} {t t' : Topology} {now : Int} {id : Nat} {op : Operation}
  {done rest : List Operation}

/-- What the ledger says when `done` is what a change has done and `rest` is what is left of it. -/
def Awaits (t : Topology) (now : Int) (id : Nat) (done rest : List Operation) : Prop :=
  if rest = [] then t.pending = none ∧ t.lastChange = some ⟨id, .completed, done, now⟩
  else t.pending = some ⟨id, rest, done⟩

theorem awaits_cons_iff :
    t.Awaits now id done (op :: rest) ↔ t.pending = some ⟨id, op :: rest, done⟩ := by
  simp [Awaits]

theorem carryOut_of_prepare {prepared : Prepared}
    (hpending : t.pending = some ⟨id, op :: rest, done⟩)
    (hprepare : op.prepare settings t = .ok prepared) :
    t.carryOut settings now op =
      .ok ((prepared.inProgress.apply op.member t).advanced now op.member prepared.confirmed
        ⟨id, op :: rest, done⟩) := by
  have hmarked : (prepared.inProgress.apply op.member t).pending = some ⟨id, op :: rest, done⟩ := by
    rw [Update.pending_apply, hpending]
  simp only [carryOut, hprepare]
  exact advanceChange_of_pending hmarked rfl now prepared.confirmed

theorem carryOut_eq_ok_iff (hpending : t.pending = some ⟨id, op :: rest, done⟩) :
    t.carryOut settings now op = .ok t' ↔
      ∃ prepared, op.prepare settings t = .ok prepared ∧
        t' = (prepared.inProgress.apply op.member t).advanced now op.member prepared.confirmed
          ⟨id, op :: rest, done⟩ := by
  cases hprepare : op.prepare settings t with
  | error e => simp [carryOut, hprepare, bind, Except.bind]
  | ok prepared => simp [carryOut_of_prepare hpending hprepare, eq_comm]

/-- Whatever the ledger says, carrying out an operation makes its two writes to the members. -/
theorem members_of_carryOut {prepared : Prepared} (hprepare : op.prepare settings t = .ok prepared)
    (hcarry : t.carryOut settings now op = .ok t') :
    t'.members = (prepared.confirmed.apply op.member
      (prepared.inProgress.apply op.member t)).members := by
  simp only [carryOut, hprepare, bind, Except.bind] at hcarry
  rcases advanceChange_eq_ok_iff.1 hcarry with ⟨c, next, rest, -, -, -, rfl⟩
  exact members_advanced now op.member prepared.confirmed

theorem awaits_advanced (u : Update) (c : PendingChange) (hc : c = ⟨id, op :: rest, done⟩) :
    (t.advanced now op.member u c).Awaits now id (done ++ [op]) rest := by
  subst hc
  by_cases hrest : rest = []
  · simp [Awaits, advanced, settle, PendingChange.advance, hrest]
  · simp [Awaits, advanced, settle, PendingChange.advance, hrest]

theorem Awaits.carryOut (h : t.Awaits now id done (op :: rest))
    (hcarry : t.carryOut settings now op = .ok t') : t'.Awaits now id (done ++ [op]) rest := by
  rcases (carryOut_eq_ok_iff (awaits_cons_iff.1 h)).1 hcarry with ⟨prepared, -, rfl⟩
  exact awaits_advanced prepared.confirmed _ rfl

/-- What carrying out an operation yields, the time of the last change apart, does not depend on
that time or on the present one. -/
theorem carryOut_untimed (settings : Settings) (h : t.untimed = t'.untimed)
    (hpending : t.pending = some ⟨id, op :: rest, done⟩) (now now' : Int) :
    (t.carryOut settings now op).map untimed = (t'.carryOut settings now' op).map untimed := by
  have hpending' : t'.pending = some ⟨id, op :: rest, done⟩ := by
    rw [← pending_eq_of_untimed h, hpending]
  have hprepare := Operation.prepare_congr settings (members_eq_of_untimed h) op
  cases hp : op.prepare settings t with
  | error e =>
      rw [hp] at hprepare
      simp [Topology.carryOut, hp, ← hprepare, bind, Except.bind, Except.map]
  | ok prepared =>
      rw [hp] at hprepare
      rw [carryOut_of_prepare hpending hp, carryOut_of_prepare hpending' hprepare.symm]
      have hmarked : (prepared.inProgress.apply op.member t).untimed =
          (prepared.inProgress.apply op.member t').untimed := by
        rw [untimed_apply, untimed_apply, h]
      exact congrArg Except.ok (untimed_advanced hmarked now now' op.member prepared.confirmed)

theorem foldlM_carryOut_untimed (settings : Settings) (operations : List Operation)
    (now now' : Int) :
    ∀ {t t' : Topology} {done : List Operation}, t.untimed = t'.untimed →
      t.Awaits now id done operations →
      (operations.foldlM (Topology.carryOut settings now) t).map untimed =
        (operations.foldlM (Topology.carryOut settings now') t').map untimed := by
  induction operations with
  | nil =>
      intro t t' done h _
      simp [pure, Except.pure, Except.map, h]
  | cons op rest ih =>
      intro t t' done h hawaits
      -- The first operation is carried out alike, and leaves the same to await.
      have hcarry := carryOut_untimed settings h (awaits_cons_iff.1 hawaits) now now'
      simp only [List.foldlM_cons]
      rcases cases_of_map_eq hcarry with ⟨e, hfirst, hsecond⟩ | ⟨u, u', hfirst, hsecond, hu⟩
      · rw [hfirst, hsecond]
        rfl
      · rw [hfirst, hsecond]
        exact ih hu (hawaits.carryOut hfirst)

end Topology

/-! ## The calls of an execution -/

/-- The calls by which operations are carried out one after the other, each as it is prepared when
its turn comes. -/
inductive Told (settings : Settings) (now : Int) : Topology → List Operation → List Call → Prop
  | nil {t : Topology} : Told settings now t [] []
  | cons {t t' : Topology} {op : Operation} {prepared : Prepared} {rest : List Operation}
      {calls : List Call} (checked : op.prepare settings t = .ok prepared)
      (carried : t.carryOut settings now op = .ok t') (tail : Told settings now t' rest calls) :
      Told settings now t (op :: rest) (prepared.call :: calls)

theorem Told.serves {settings : Settings} {now : Int} {t : Topology} {ops : List Operation}
    {calls : List Call} (h : Told settings now t ops calls) :
    List.Forall₂ Call.Serves calls ops := by
  induction h with
  | nil => exact .nil
  | cons checked carried tail ih => exact .cons (Operation.ready_of_prepare checked).call_serves ih

/-! ## The two writes of an operation -/

namespace Execution

variable {t : Topology} {now : Int} {id : Nat} {op : Operation} {done rest : List Operation}

theorem isNext_of_pending (hpending : t.pending = some ⟨id, op :: rest, done⟩) :
    isNext id op t := by
  simp [isNext, hpending, PendingChange.next?]

theorem starting_of_pending (prepared : Prepared)
    (hpending : t.pending = some ⟨id, op :: rest, done⟩) :
    starting id op prepared t = .ok (prepared.inProgress.apply op.member t) := by
  simp [starting, isNext_of_pending hpending]

/-- Marking leaves the ledger alone, so the operation is still the next one when it is confirmed. -/
theorem finishing_of_pending (now : Int) (prepared : Prepared)
    (hpending : t.pending = some ⟨id, op :: rest, done⟩) :
    finishing now id op prepared (prepared.inProgress.apply op.member t) =
      .ok ((prepared.inProgress.apply op.member t).advanced now op.member prepared.confirmed
        ⟨id, op :: rest, done⟩) := by
  have hmarked : (prepared.inProgress.apply op.member t).pending = some ⟨id, op :: rest, done⟩ := by
    simpa only [Update.pending_apply] using hpending
  simp only [finishing, isNext_of_pending hmarked, if_true]
  exact Topology.advanceChange_of_pending hmarked rfl now prepared.confirmed

end Execution

/-! ## The store that nothing disturbs -/

namespace Undisturbed

open ReplicaCluster.Topology

variable {settings : Settings} {t t' : Topology} {now : Int} {id : Nat} {op : Operation}
  {done rest : List Operation}

/-- A store in memory that nobody else works on, with members that comply, under record. -/
def host : Host (Recorded Store) := Store.host.recorded

def progress (r : Recorded Store) : Progress := (0, r.state.remaining)

/-- A store that holds a topology, with nothing recorded yet. -/
def holding (t : Topology) : Recorded Store := ⟨.memory t, [], []⟩

theorem run_advance {prepared : Prepared} (writes : List Topology) (calls : List Call)
    (hpending : t.pending = some ⟨id, op :: rest, done⟩)
    (hprepare : op.prepare settings t = .ok prepared)
    (hcarry : t.carryOut settings now op = .ok t') :
    ∃ marked, (Execution.advance settings now).run host ⟨.memory t, writes, calls⟩ =
      (.ok (some op), ⟨.memory t', writes ++ [marked] ++ [t'], calls ++ [prepared.call]⟩) := by
  rw [carryOut_of_prepare hpending hprepare] at hcarry
  cases hcarry
  have hnext : t.next? = some op := next?_eq_some_iff.2 ⟨_, rest, hpending, rfl⟩
  have hstart := Execution.starting_of_pending prepared hpending
  have hfinish := Execution.finishing_of_pending now prepared hpending
  refine ⟨prepared.inProgress.apply op.member t, ?_⟩
  simp [Execution.advance, Process.run, host, Host.recorded, Store.host, Store.topology,
    Store.content, Except.mapError, hpending, hnext, hprepare, Store.update, Except.bind, hstart,
    hfinish, Store.write]

theorem run_advance_idle (writes : List Topology) (calls : List Call)
    (hpending : t.pending = none) :
    (Execution.advance settings now).run host ⟨.memory t, writes, calls⟩ =
      (.ok none, ⟨.memory t, writes, calls⟩) := by
  simp [Execution.advance, Process.run, host, Host.recorded, Store.host, Store.topology,
    Store.content, Except.mapError, hpending]

theorem progress_before {writes writes' : List Topology} {calls calls' : List Call}
    (hpending : t.pending = some ⟨id, op :: rest, done⟩)
    (hawaits : t'.Awaits now id (done ++ [op]) rest) :
    (progress ⟨.memory t', writes', calls'⟩).Before (progress ⟨.memory t, writes, calls⟩) := by
  refine Or.inr ⟨rfl, ?_⟩
  by_cases hrest : rest = []
  · have hnone : t'.pending = none := by
      rw [Awaits, if_pos hrest] at hawaits
      exact hawaits.1
    simp [progress, Store.remaining, Store.content, Execution.remaining, hpending, hnone]
  · have hsome : t'.pending = some ⟨id, rest, done ++ [op]⟩ := by
      rwa [Awaits, if_neg hrest] at hawaits
    simp [progress, Store.remaining, Store.content, Execution.remaining, hpending, hsome]

/-- Draining the store carries out every operation that is left, each by one call and in their
order, and ends where carrying them out in memory ends. -/
theorem drain_of_carryOut {final : Topology} :
    ∀ (rest : List Operation) {t : Topology} {done : List Operation} (writes : List Topology)
      (calls : List Call), t.Awaits now id done rest →
      rest.foldlM (carryOut settings now) t = .ok final →
      ∃ writes' told, Told settings now t rest told ∧
        final.pending = none ∧ final.lastChange = some ⟨id, .completed, done ++ rest, now⟩ ∧
        Execution.drain host progress settings now ⟨.memory t, writes, calls⟩ =
          (.ok rest.length, ⟨.memory final, writes', calls ++ told⟩) := by
  -- By induction on what is left to do, for every topology that awaits it.
  intro rest
  induction rest with
  | nil =>
      intro t done writes calls hawaits hfold
      have hfinal : t = final := by simpa [pure, Except.pure] using hfold
      subst hfinal
      rw [Awaits, if_pos rfl] at hawaits
      refine ⟨writes, [], .nil, hawaits.1, by simpa using hawaits.2, ?_⟩
      rw [Execution.drain, run_advance_idle writes calls hawaits.1]
      simp
  | cons op rest ih =>
      intro t done writes calls hawaits hfold
      have hpending := awaits_cons_iff.1 hawaits
      rw [List.foldlM_cons, bind_eq_ok_iff] at hfold
      rcases hfold with ⟨t', hcarry, hfold⟩
      rcases (carryOut_eq_ok_iff hpending).1 hcarry with ⟨prepared, hprepare, -⟩
      rcases run_advance writes calls hpending hprepare hcarry with ⟨marked, hrun⟩
      have hawaits' := hawaits.carryOut hcarry
      rcases ih (writes ++ [marked] ++ [t']) (calls ++ [prepared.call]) hawaits' hfold with
        ⟨writes', told, htold, hnone, hlast, hdrain⟩
      refine ⟨writes', prepared.call :: told, .cons hprepare hcarry htold, hnone,
        by simpa using hlast, ?_⟩
      rw [Execution.drain, hrun]
      simp only [progress_before hpending hawaits', if_true, hdrain]
      simp

end Undisturbed

end ReplicaCluster
