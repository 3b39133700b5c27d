import ReplicaCluster.Operation

/-!
# Changes in progress and changes that ended

A change is a list of operations that run strictly in order.  While it is pending, its
operations are split into those done and those still to do; when it has ended, only what was
done is kept.
-/

namespace ReplicaCluster

/-- A change that is being carried out. -/
structure PendingChange where
  id : Nat
  /-- The operations still to do; the head runs next. -/
  remaining : List Operation
  /-- The operations done, in the order in which they ran. -/
  done : List Operation
  deriving DecidableEq, Repr

namespace PendingChange

def start (id : Nat) (operations : List Operation) : PendingChange := ⟨id, operations, []⟩

/-- The operation that runs next. -/
def next? (c : PendingChange) : Option Operation := c.remaining.head?

/-- Counts the next operation as done. -/
def advance (c : PendingChange) : PendingChange :=
  match c.remaining with
  | [] => c
  | op :: rest => { c with remaining := rest, done := c.done ++ [op] }

/-- All operations of the change, in their order. -/
def operations (c : PendingChange) : List Operation := c.done ++ c.remaining

@[simp] theorem id_advance (c : PendingChange) : c.advance.id = c.id := by
  unfold advance
  split
  · rfl
  · rfl

@[simp] theorem operations_advance (c : PendingChange) : c.advance.operations = c.operations := by
  unfold advance operations
  split
  · rfl
  · next op rest h => simp [h]

end PendingChange

/-- How a change ended. -/
inductive Outcome
  | completed
  | cancelled
  deriving DecidableEq, Repr

/-- The word for an outcome in texts that people read. -/
def Outcome.label : Outcome → String
  | .completed => "Completed"
  | .cancelled => "Cancelled"

/-- The record of a change that is no longer pending. -/
structure EndedChange where
  id : Nat
  outcome : Outcome
  /-- The operations that were carried out. -/
  operations : List Operation
  /-- The time of the end, in nanoseconds since the epoch. -/
  endedAt : Int
  deriving DecidableEq, Repr

end ReplicaCluster
