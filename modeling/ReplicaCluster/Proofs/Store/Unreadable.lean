import ReplicaCluster.Proofs.Execution.Retry
import ReplicaCluster.Proofs.Management.Handler
import ReplicaCluster.Proofs.Store.Persistence
import ReplicaCluster.Rehearsal.Script

/-!
# Bytes that the store cannot read

Bytes that are no topology, or are one in another version of the format, stay on the disk whatever
is done with the store: every revision starts with a read, and the read fails.  This holds for the
revisions too that do not look at what they find, such as a recovery or a first bootstrap.

`Rehearsal.Activity` lists all that works on a store.  One activity fails and leaves the bytes
alone (`World.Keeps.carryOut`), and so does any run of them
(`unreadable_bytes_never_overwritten`).
-/

namespace ReplicaCluster

open Wire

/-! ## What cannot be read -/

namespace Topology

/-- Bytes that are no topology in this version of the format, with the reason why. -/
def Unreadable (bytes : Bytes) (cause : Cause) : Prop :=
  decode? readPersisted bytes = none ∧ cause = .undecodable ∨
    ∃ version t, decode? readPersisted bytes = some (version, t) ∧ version ≠ formatVersion ∧
      cause = .unsupportedFormat version

theorem exists_unreadable {bytes : Bytes}
    (h : ∀ t, decode? readPersisted bytes ≠ some (formatVersion, t)) :
    ∃ cause, Unreadable bytes cause := by
  cases hdecode : decode? readPersisted bytes with
  | none => exact ⟨.undecodable, Or.inl ⟨hdecode, rfl⟩⟩
  | some stored =>
      rcases stored with ⟨version, t⟩
      have hversion : version ≠ formatVersion := by
        intro hsame
        exact h t (hsame ▸ hdecode)
      exact ⟨.unsupportedFormat version, Or.inr ⟨version, t, hdecode, hversion, rfl⟩⟩

theorem Unreadable.restore_eq {bytes : Bytes} {cause : Cause} (h : Unreadable bytes cause) :
    restore bytes = .error cause := by
  rcases h with ⟨hdecode, rfl⟩ | ⟨version, t, hdecode, hversion, rfl⟩
  · simp [restore, hdecode]
  · simp [restore, hdecode, hversion]

theorem Unreadable.kind_eq {bytes : Bytes} {cause : Cause} (h : Unreadable bytes cause) :
    cause.failure.kind = .internal := by
  rcases h with ⟨-, rfl⟩ | ⟨version, t, -, -, rfl⟩ <;> rfl

end Topology

@[simp]
theorem Schedule.due?_nil {α : Type} : Schedule.due? ([] : Schedule α) = none := rfl

@[simp]
theorem Schedule.tick_nil {α : Type} : Schedule.tick ([] : Schedule α) = [] := rfl

/-! ## Processes whose first step is on the store -/

def Process.StartsAtStore {α : Type} : Process α → Prop
  | .read _ | .update _ _ => True
  | .done _ | .fail _ | .call _ _ => False

/-- A request is refused at once, or its first step is on the store. -/
theorem Request.Handled.startsAtStore {settings : Settings} {now : Int} {r : Request}
    {p : Process Response} (h : r.Handled settings now p) :
    (r.reachesStore = true ∧ p.StartsAtStore) ∨
      (r.reachesStore = false ∧ p = .fail Cause.noMembersGiven.failure) := by
  cases h with
  | refused silent => exact Or.inr ⟨silent, rfl⟩
  | change intent asked reaches => exact Or.inl ⟨reaches, trivial⟩
  | cancel id => exact Or.inl ⟨rfl, trivial⟩
  | recover members reaches => exact Or.inl ⟨reaches, trivial⟩
  | topology => exact Or.inl ⟨rfl, trivial⟩

/-! ## Activities -/

namespace Rehearsal

/-- Everything that works on the store of a cluster. -/
inductive Activity
  /-- A management request to a node. -/
  | handle (settings : Settings) (request : Request)
  -- requests to the coordinator
  | request (settings : Settings) (dryRun : Bool) (planner : Planner)
  | cancel (change : Nat)
  | recover (settings : Settings) (members : List MemberId)
  | topology
  -- the execution of changes, once, until nothing is pending, and again and again
  | advance (settings : Settings)
  | drain (settings : Settings)
  | poll (settings : Settings) (times : Nat)
  /-- Any revision, made directly. -/
  | revise (revise : Revision)
  | bootstrap (members : List MemberId) (partitionCount replicationFactor : Nat)
  | reopen

/-- What is told at the end of an activity. -/
inductive Report
  | answer (answer : Answer)
  | refusal (failure : Failure)
  /-- The last words of a node that cannot start. -/
  | abort (message : String)

namespace Activity

/-- Carries out an activity, at the time that the world has. -/
def carryOut (w : World) : Activity → Except Failure Answer × World
  | .handle settings r => perform w (r.handle settings w.clock) .response
  | .request settings dryRun planner =>
      perform w (Coordinator.request settings w.clock dryRun planner) .result
  | .cancel change => perform w (Coordinator.cancel w.clock change) .topology
  | .recover settings members =>
      perform w (Coordinator.recover settings w.clock members) .result
  | .topology => perform w Coordinator.topology .topology
  | .advance settings => perform w (Execution.advance settings w.clock) .operation
  | .drain settings =>
      let (result, w) := Rehearsal.drain ⟨settings, settings⟩ w
      (result.map .count, w)
  | .poll settings times => (.ok .nothing, Rehearsal.poll ⟨settings, settings⟩ times w)
  | .revise f => perform w (.update f .done) .topology
  | .bootstrap members partitionCount replicationFactor =>
      perform w (.update (Node.bootstrap members partitionCount replicationFactor) .done) .topology
  | .reopen => (.ok .nothing, calm w)

def report (result : Except Failure Answer) : Activity → Report
  | .bootstrap .. =>
      match result with
      | .ok answer => .answer answer
      | .error f => .abort (Node.bootstrapMessage f)
  | _ =>
      match result with
      | .ok answer => .answer answer
      | .error f => .refusal f

/-- What an activity comes to on a store that cannot be read. -/
def blocked (cause : Cause) : Activity → Except Failure Answer
  | .handle _ r =>
      if r.reachesStore then .error cause.failure else refuse .noMembersGiven
  | .poll .. | .reopen => .ok .nothing
  | _ => .error cause.failure

end Activity

/-- Carries out activities, each at its time: what is told, and the world that is left. -/
def carryOutAll (w : World) : List (Int × Activity) → List Report × World
  | [] => ([], w)
  | (now, a) :: rest =>
      let (result, w) := a.carryOut { w with clock := now }
      let (reports, w) := carryOutAll w rest
      (a.report result :: reports, w)

end Rehearsal

/-! ## Worlds that keep the bytes -/

/-- The bytes are on the disk, the members were told no more than that, and nothing stands between
the store and those who work on it.  Other parties and members may be set up to do anything. -/
structure World.Keeps (w : World) (bytes : Bytes) (calls : List Call) : Prop where
  store : w.store = .disk (some bytes)
  calls : w.calls = calls
  frozen : w.frozen = none
  failingReads : w.failingReads = []
  failingUpdates : w.failingUpdates = []

namespace World.Keeps

open Rehearsal

variable {w : World} {bytes : Bytes} {calls : List Call} {cause : Cause} {α : Type}

theorem topology_eq (h : w.Keeps bytes calls) (unreadable : Topology.Unreadable bytes cause) :
    w.store.topology = .error cause.failure := by
  rw [h.store]
  exact congrArg (Except.mapError Cause.failure) unreadable.restore_eq

/-- Another party that writes fails as well. -/
theorem disturb_eq (h : w.Keeps bytes calls) (unreadable : Topology.Unreadable bytes cause)
    (edit : Edit) : w.disturb edit = w := by
  simp [World.disturb, Store.update_of_topology_eq_error (h.topology_eq unreadable)]

theorem read (h : w.Keeps bytes calls) (unreadable : Topology.Unreadable bytes cause) :
    ∃ w', World.host.read w = (.error cause.failure, w') ∧ w'.Keeps bytes calls := by
  refine ⟨{ w with failingReads := [] }, ?_, h.store, h.calls, h.frozen, rfl, h.failingUpdates⟩
  simp [World.host, World.read, h.failingReads, h.frozen, h.topology_eq unreadable]

theorem update (h : w.Keeps bytes calls) (unreadable : Topology.Unreadable bytes cause)
    (revise : Revision) :
    ∃ w', World.host.update revise w = (.error cause.failure, w') ∧ w'.Keeps bytes calls := by
  let after : World := { w with interference := w.interference.tick, failingUpdates := [] }
  have hafter : after.Keeps bytes calls := ⟨h.store, h.calls, h.frozen, h.failingReads, rfl⟩
  have hstored : w.store.update revise = (.error cause.failure, w.store) :=
    Store.update_of_topology_eq_error (h.topology_eq unreadable) revise
  refine ⟨after, ?_, hafter⟩
  cases hdue : w.interference.due? with
  | none => simp [World.host, World.update, h.failingUpdates, hdue, hstored, after]
  | some edit =>
      -- The other party that gets in first has to read as well, and fails.
      have hdisturbed : after.disturb edit = after := hafter.disturb_eq unreadable edit
      simp only [after] at hdisturbed
      simp [World.host, World.update, h.failingUpdates, hdue, hdisturbed, hstored, after]

/-- A process whose first step is on the store comes no further. -/
theorem run (h : w.Keeps bytes calls) (unreadable : Topology.Unreadable bytes cause)
    {p : Process α} (starts : p.StartsAtStore) :
    ∃ w', p.run World.host w = (.error cause.failure, w') ∧ w'.Keeps bytes calls := by
  cases p with
  | read next =>
      rcases h.read unreadable with ⟨w', hread, hkeeps⟩
      exact ⟨w', by simp [Process.run, hread], hkeeps⟩
  | update revise next =>
      rcases h.update unreadable revise with ⟨w', hupdate, hkeeps⟩
      exact ⟨w', by simp [Process.run, hupdate], hkeeps⟩
  | done result => exact starts.elim
  | fail failure => exact starts.elim
  | call c next => exact starts.elim

theorem perform (h : w.Keeps bytes calls) (unreadable : Topology.Unreadable bytes cause)
    {p : Process α} (starts : p.StartsAtStore) (answer : α → Answer) :
    ∃ w', Rehearsal.perform w p answer = (.error cause.failure, w') ∧ w'.Keeps bytes calls := by
  rcases h.run unreadable starts with ⟨w', hrun, hkeeps⟩
  exact ⟨w', by simp [Rehearsal.perform, hrun, Except.map], hkeeps⟩

theorem handle (h : w.Keeps bytes calls) (unreadable : Topology.Unreadable bytes cause)
    (settings : Settings) (r : Request) :
    ∃ w', Rehearsal.perform w (r.handle settings w.clock) .response =
        ((Activity.handle settings r).blocked cause, w') ∧ w'.Keeps bytes calls := by
  rcases (Request.handled settings w.clock r).startsAtStore with
    ⟨hreaches, starts⟩ | ⟨hreaches, hfail⟩
  · rcases h.perform unreadable starts .response with ⟨w', hperform, hkeeps⟩
    exact ⟨w', by simp [hperform, Activity.blocked, hreaches], hkeeps⟩
  · -- The store is not asked, so the world stays as it is.
    refine ⟨w, ?_, h⟩
    simp [Rehearsal.perform, hfail, Process.run, Except.map, Activity.blocked, hreaches, refuse]

theorem drain (h : w.Keeps bytes calls) (unreadable : Topology.Unreadable bytes cause)
    (stage : Stage) :
    ∃ w', Rehearsal.drain stage w = (.error cause.failure, w') ∧ w'.Keeps bytes calls := by
  have starts : (Execution.advance stage.execution w.clock).StartsAtStore := trivial
  rcases h.run unreadable starts with ⟨w', hrun, hkeeps⟩
  exact ⟨w', Execution.drain_of_error hrun, hkeeps⟩

theorem poll (unreadable : Topology.Unreadable bytes cause) (stage : Stage) (times : Nat) :
    ∀ {w : World}, w.Keeps bytes calls → (Rehearsal.poll stage times w).Keeps bytes calls := by
  induction times with
  | zero =>
      intro w h
      exact h
  | succ times ih =>
      intro w h
      rcases h.drain unreadable stage with ⟨w', hdrain, hkeeps⟩
      simpa [Rehearsal.poll, hdrain] using ih hkeeps

/-- One activity fails, as far as it reaches the store, and leaves the bytes alone. -/
theorem carryOut (h : w.Keeps bytes calls) (unreadable : Topology.Unreadable bytes cause)
    (a : Activity) :
    ∃ w', a.carryOut w = (a.blocked cause, w') ∧ w'.Keeps bytes calls := by
  -- All but a drain, a poll and a reopening are single processes that start at the store.
  cases a with
  | handle settings r => exact h.handle unreadable settings r
  | request settings dryRun planner => exact h.perform unreadable (by trivial) _
  | cancel change => exact h.perform unreadable (by trivial) _
  | recover settings members => exact h.perform unreadable (by trivial) _
  | topology => exact h.perform unreadable (by trivial) _
  | advance settings => exact h.perform unreadable (by trivial) _
  | drain settings =>
      rcases h.drain unreadable ⟨settings, settings⟩ with ⟨w', hdrain, hkeeps⟩
      exact ⟨w', by simp [Activity.carryOut, hdrain, Except.map, Activity.blocked], hkeeps⟩
  | poll settings times => exact ⟨_, rfl, poll unreadable _ times h⟩
  | revise f => exact h.perform unreadable (by trivial) _
  | bootstrap members partitionCount replicationFactor => exact h.perform unreadable (by trivial) _
  | reopen => exact ⟨_, rfl, h.store, h.calls, rfl, rfl, rfl⟩

/-- So does any run of activities, by induction on their number. -/
theorem carryOutAll (unreadable : Topology.Unreadable bytes cause)
    (activities : List (Int × Activity)) :
    ∀ {w : World}, w.Keeps bytes calls →
      ∃ w', Rehearsal.carryOutAll w activities =
          (activities.map fun a => a.2.report (a.2.blocked cause), w') ∧ w'.Keeps bytes calls := by
  induction activities with
  | nil =>
      intro w h
      exact ⟨w, rfl, h⟩
  | cons timed rest ih =>
      intro w h
      rcases timed with ⟨now, a⟩
      have hnow : { w with clock := now }.Keeps bytes calls :=
        ⟨h.store, h.calls, h.frozen, h.failingReads, h.failingUpdates⟩
      rcases hnow.carryOut unreadable a with ⟨w', hfirst, hkeeps⟩
      rcases ih hkeeps with ⟨w'', hrest, hkeeps⟩
      exact ⟨w'', by simp [Rehearsal.carryOutAll, hfirst, hrest], hkeeps⟩

end World.Keeps

namespace Rehearsal

/-- Bytes that cannot be read as this version of the format are on the disk after any run of
activities, and no member is ever called.  Every activity that reaches the store fails with the
internal error of the store; a node that starts wraps it, and a driver that polls drops it. -/
theorem unreadable_bytes_never_overwritten (bytes : Bytes)
    (unreadable : ∀ t, decode? Topology.readPersisted bytes ≠ some (1, t)) :
    ∃ cause, Topology.Unreadable bytes cause ∧ cause.failure.kind = .internal ∧
      ∀ (w : World) (activities : List (Int × Activity)), w.Keeps bytes w.calls →
        ∃ w', carryOutAll w activities =
            (activities.map fun a => a.2.report (a.2.blocked cause), w') ∧
          w'.store = .disk (some bytes) ∧ w'.calls = w.calls := by
  rcases Topology.exists_unreadable unreadable with ⟨cause, hcause⟩
  refine ⟨cause, hcause, hcause.kind_eq, ?_⟩
  intro w activities hkeeps
  rcases hkeeps.carryOutAll hcause activities with ⟨w', hrun, hkept⟩
  exact ⟨w', hrun, hkept.store, hkept.calls⟩

/-- The store of a newer version, met by a node that starts, by clients who overwrite it, by a
driver, and by another party that writes. -/
theorem unreadable_bytes_never_overwritten_newer :
    let bytes := Wire.nat 2 ++ Topology.initial.write
    let w : World :=
      { World.start 0 (.disk (some bytes)) with
        interference := [(0, .set .initial), (2, .set .uninitialized)] }
    let settings : Settings := {}
    let activities : List (Int × Activity) :=
      [(1, .bootstrap ["1"] 3 1), (2, .handle settings (.forceOverwrite ["1"])),
        (3, .handle settings (.scale [] false)), (4, .revise fun _ => .ok .initial),
        (5, .poll settings 2), (6, .reopen), (7, .drain settings)]
    let reason := "unsupported topology format version 2"
    ∃ w', carryOutAll w activities =
        ([.abort ("failed to bootstrap topology: internal error: " ++ reason),
          .refusal ⟨.internal, reason⟩, .refusal ⟨.invalidRequest, "members must not be empty"⟩,
          .refusal ⟨.internal, reason⟩, .answer .nothing, .answer .nothing,
          .refusal ⟨.internal, reason⟩], w') ∧
      w'.store = .disk (some bytes) ∧ w'.calls = [] := by
  intro bytes w settings activities reason
  have hdecode : decode? Topology.readPersisted bytes = some (2, .initial) := by decide +kernel
  have unreadable : ∀ t, decode? Topology.readPersisted bytes ≠ some (1, t) := by
    simp [hdecode]
  have hkeeps : w.Keeps bytes w.calls := ⟨rfl, rfl, rfl, rfl, rfl⟩
  rcases unreadable_bytes_never_overwritten bytes unreadable with ⟨cause, hcause, -, hall⟩
  have hnewer : cause = .unsupportedFormat 2 := by
    rcases hcause with ⟨hnone, -⟩ | ⟨version, t, hsome, -, hcause⟩
    · simp [hdecode] at hnone
    · have hversion : 2 = version ∧ Topology.initial = t := by simpa [hdecode] using hsome
      simp [hcause, hversion.1]
  subst hnewer
  exact hall w activities hkeeps

end Rehearsal

end ReplicaCluster
