import ReplicaCluster.Management.Handler
import ReplicaCluster.Node
import ReplicaCluster.Rehearsal.World

/-!
# Scripts

A rehearsal follows a script: a list of steps, each of which is a request to the coordinator, a
piece of the execution of changes, an edit by another party, or the set-up of a disturbance.
-/

namespace ReplicaCluster

namespace Rehearsal

/-- What does not change during a rehearsal. -/
structure Stage where
  coordination : Settings
  execution : Settings

/-- A step of a script. -/
inductive Step
  | handle (request : Request)
  | request (intent : Intent) (dryRun : Bool)
  | cancel (change : Nat)
  | recover (members : List MemberId)
  | topology
  /-- Carries out one operation. -/
  | advance
  /-- Carries out operations until nothing is pending. -/
  | drain
  /-- Does so again and again, whatever comes of it. -/
  | poll (times : Nat)
  | edit (edit : Edit)
  /-- From now on readers see today's topology. -/
  | freeze
  | thaw
  | interfere (after : Nat) (edit : Edit)
  | failUpdate (after : Nat) (failure : Failure)
  | failRead (after : Nat) (failure : Failure)
  | failCall (failure : CallFailure)
  | hookCall (hook : CallHook)
  /-- Closes and opens the store. -/
  | reopen
  /-- Closes the store, replaces its bytes and opens it. -/
  | putBytes (bytes : Bytes)
  | getBytes
  | bootstrap (members : List MemberId) (partitionCount replicationFactor : Nat)

inductive Answer
  | response (response : Response)
  | result (result : ChangeResult)
  | topology (topology : Topology)
  | operation (operation : Option Operation)
  | count (count : Nat)
  | bytes (bytes : Option Bytes)
  | nothing

def perform {α : Type} (w : World) (process : Process α) (answer : α → Answer) :
    Except Failure Answer × World :=
  let (result, w) := process.run World.host w
  (result.map answer, w)

/-- Carries out changes until nothing is pending or something fails. -/
def drain (stage : Stage) (w : World) : Except Failure Nat × World :=
  Execution.drain World.host World.progress stage.execution w.clock w

def poll (stage : Stage) : Nat → World → World
  | 0, w => w
  | times + 1, w => poll stage times (drain stage w).2

/-- Revises the store, past all disturbances. -/
def reviseStore (w : World) (revise : Revision) : Except Failure Topology × World :=
  let (result, store) := w.store.update revise
  (result, { w with store })

/-- Drops all disturbances but those of the members. -/
def calm (w : World) : World :=
  { w with frozen := none, interference := [], failingUpdates := [], failingReads := [] }

/-- Carries out one step, at the time that the world has. -/
def carryOut (stage : Stage) (w : World) : Step → Except Failure Answer × World
  | .handle request => perform w (request.handle stage.coordination w.clock) .response
  | .request intent dryRun =>
      perform w (Coordinator.request stage.coordination w.clock dryRun intent.planner) .result
  | .cancel change => perform w (Coordinator.cancel w.clock change) .topology
  | .recover members =>
      perform w (Coordinator.recover stage.coordination w.clock members) .result
  | .topology => perform w Coordinator.topology .topology
  | .advance => perform w (Execution.advance stage.execution w.clock) .operation
  | .drain =>
      let (result, w) := drain stage w
      (result.map .count, w)
  | .poll times => (.ok .nothing, poll stage times w)
  | .edit edit =>
      let (result, w) := reviseStore w fun t => edit.apply w.clock t
      (result.map .topology, w)
  | .freeze =>
      match w.store.topology with
      | .ok t => (.ok .nothing, { w with frozen := some t })
      | .error e => (.error e, w)
  | .thaw => (.ok .nothing, { w with frozen := none })
  | .interfere after edit =>
      (.ok .nothing, { w with interference := w.interference ++ [(after, edit)] })
  | .failUpdate after f =>
      (.ok .nothing, { w with failingUpdates := w.failingUpdates ++ [(after, f)] })
  | .failRead after f =>
      (.ok .nothing, { w with failingReads := w.failingReads ++ [(after, f)] })
  | .failCall f => (.ok .nothing, { w with callFailures := w.callFailures ++ [f] })
  | .hookCall hook => (.ok .nothing, { w with hooks := w.hooks ++ [hook] })
  | .reopen => (.ok .nothing, calm w)
  | .putBytes bytes => (.ok .nothing, { calm w with store := .disk (some bytes) })
  | .getBytes =>
      match w.store with
      | .disk bytes => (.ok (.bytes bytes), w)
      | .memory _ => (.ok (.bytes none), w)
  | .bootstrap members partitionCount replicationFactor =>
      let (result, w) :=
        reviseStore w (Node.bootstrap members partitionCount replicationFactor)
      (result.map fun _ => .nothing, w)

/-- Follows one step; time passes with it. -/
def follow (stage : Stage) (w : World) (step : Step) : Except Failure Answer × World :=
  let (result, w) := carryOut stage w step
  (result, w.tick)

end Rehearsal

end ReplicaCluster
