import ReplicaCluster.Execution.Call
import ReplicaCluster.Failure
import ReplicaCluster.Topology

/-!
# Processes over a shared store

Everything that works on the stored topology is a process: a sequence of atomic steps, each of
which reads the store, revises it, or calls a member.  Between two steps of one process any
other party may act, so the steps are exactly the points at which an interleaving can happen.
A step that fails ends its process.

A process is data.  `Process.run` carries one out on a host that says what the three kinds of
steps do to its state.
-/

namespace ReplicaCluster

/-- A revision of the stored topology.  If it fails, nothing is written. -/
abbrev Revision := Topology → Except Failure Topology

/-- A sequence of atomic steps that ends with a result or a failure. -/
inductive Process (α : Type) : Type
  | done (result : α)
  | fail (failure : Failure)
  /-- Reads the stored topology. -/
  | read (next : Topology → Process α)
  /-- Revises the stored topology and goes on with what was stored. -/
  | update (revise : Revision) (next : Topology → Process α)
  /-- Calls a member and goes on once it has complied. -/
  | call (call : Call) (next : Process α)

/-- Those who carry out the atomic steps, on a state of type `σ`. -/
structure Host (σ : Type) where
  read : σ → Except Failure Topology × σ
  update : Revision → σ → Except Failure Topology × σ
  call : Call → σ → Except Failure Unit × σ

namespace Process

variable {α β σ : Type}

/-- Hands the result of a process to a function. -/
def map (f : α → β) : Process α → Process β
  | .done a => .done (f a)
  | .fail e => .fail e
  | .read next => .read fun t => (next t).map f
  | .update revise next => .update revise fun t => (next t).map f
  | .call c next => .call c (next.map f)

/-- Carries out a process without interruption. -/
def run (host : Host σ) : Process α → σ → Except Failure α × σ
  | .done a, s => (.ok a, s)
  | .fail e, s => (.error e, s)
  | .read next, s =>
      match host.read s with
      | (.ok t, s) => (next t).run host s
      | (.error e, s) => (.error e, s)
  | .update revise next, s =>
      match host.update revise s with
      | (.ok t, s) => (next t).run host s
      | (.error e, s) => (.error e, s)
  | .call c next, s =>
      match host.call c s with
      | (.ok (), s) => next.run host s
      | (.error e, s) => (.error e, s)

end Process

end ReplicaCluster
