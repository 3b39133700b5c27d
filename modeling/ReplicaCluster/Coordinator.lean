import ReplicaCluster.Execution.Simulation
import ReplicaCluster.Planning.Planner
import ReplicaCluster.Planning.Recovery
import ReplicaCluster.Process

/-!
# The coordinator

The coordinator admits changes.  A request is planned and simulated on the topology that was
read; it is stored only if the store still holds that very topology.  Cancelling, by contrast,
is decided on the stored topology itself, so progress made meanwhile does not stand in its way.
A recovery is stored over whatever is there.
-/

namespace ReplicaCluster

/-- What a request for a change did, or would do. -/
structure ChangeResult where
  /-- The topology on which the change was planned. -/
  current : Topology
  /-- The topology that the change leads to. -/
  final : Topology
  /-- The number of the change, or 0 if none was started.  For a request that needs no change it
  is the number of the last one that ended. -/
  changeId : Nat
  operations : List Operation
  deriving DecidableEq

namespace Coordinator

/-- A change that was planned and simulated, but not stored yet. -/
structure Proposal where
  operations : List Operation
  /-- The topology with the change started. -/
  started : Topology
  /-- The topology with the change carried out. -/
  final : Topology
  deriving DecidableEq

/-- Plans and simulates a change; a plan without operations proposes nothing. -/
def propose (settings : Settings) (now : Int) (planner : Planner) (current : Topology) :
    Except Failure (Option Proposal) := do
  let operations ← planner current
  -- Nothing to do is no error, not even before the topology is initialized.
  if operations.isEmpty then return none
  else if current.initialized then
    let started ← current.startChange operations
    let final ← started.simulate settings now
    return some { operations, started, final }
  else refuse .notInitialized

/-- Stores a started change unless the store has moved on from the topology it was planned on. -/
def commit (expected started : Topology) : Revision := fun stored =>
  if stored = expected then .ok started else refuse .planOutdated

/-- The number of the pending change, or 0. -/
def pendingId (t : Topology) : Nat := (t.pending.map (·.id)).getD 0

/-- Handles a request for a change; a dry run stores nothing. -/
def request (settings : Settings) (now : Int) (dryRun : Bool) (planner : Planner) :
    Process ChangeResult :=
  .read fun current =>
    match propose settings now planner current with
    | .error e => .fail e
    | .ok none => .done ⟨current, current, (current.lastChange.map (·.id)).getD 0, []⟩
    | .ok (some p) =>
        if dryRun then .done ⟨current, p.final, 0, p.operations⟩
        else
          .update (commit current p.started) fun stored =>
            .done ⟨current, p.final, pendingId stored, p.operations⟩

/-- The revision that cancels the pending change, if that has the given number. -/
def cancelling (now : Int) (change : Nat) : Revision := fun stored =>
  if stored.initialized then
    match stored.pending with
    | none => refuse (.cancelWithoutChange change)
    | some c =>
        if c.id = change then .ok (stored.cancelChange now)
        else refuse (.cancelOfOtherChange change c.id)
  else refuse .cancelBeforeInitialized

/-- Cancels a change.  The operation under way is finished, the others are dropped. -/
def cancel (now : Int) (change : Nat) : Process Topology :=
  .update (cancelling now change) .done

/-- Plans and simulates a recovery.  If no partition survives there is no change to start, and
the topology without the dropped members is all that is stored. -/
def proposeRecovery (settings : Settings) (now : Int) (members : List MemberId)
    (current : Topology) : Except Failure Proposal :=
  if current.initialized then
    match current.pending with
    | some c => refuse (.changeInProgress c.id)
    | none => do
        let recovery ← Recovery.plan members current
        if recovery.operations.isEmpty then
          return ⟨[], recovery.topology, recovery.topology⟩
        else
          let started ← recovery.topology.startChange recovery.operations
          let final ← started.simulate settings now
          return { operations := recovery.operations, started, final }
  else refuse .notInitialized

/-- Drops members and makes the remaining hosts the owners of their partitions. -/
def recover (settings : Settings) (now : Int) (members : List MemberId) : Process ChangeResult :=
  .read fun current =>
    match proposeRecovery settings now members current with
    | .error e => .fail e
    | .ok p =>
        .update (fun _ => .ok p.started) fun stored =>
          .done ⟨current, p.final, pendingId stored, p.operations⟩

/-- The stored topology. -/
def topology : Process Topology := .read .done

end Coordinator

end ReplicaCluster
