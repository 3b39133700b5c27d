import ReplicaCluster.Execution.Prepared
import ReplicaCluster.Rehearsal.Players

/-!
# Trying a single operation

A trial takes one operation through both of its phases on a topology in memory, whether or not a
change is pending there.
-/

namespace ReplicaCluster

/-- What came of an operation that passed its check. -/
structure Trial where
  prepared : Prepared
  inProgress : Topology
  /-- The member's answer. -/
  answer : Except Failure Unit
  /-- The topology after both phases, if the member complied. -/
  confirmed : Option Topology

/-- Tries an operation with members that are set up to fail. -/
def Operation.try (settings : Settings) (failures : List CallFailure) (op : Operation)
    (t : Topology) : Except Failure Trial := do
  let prepared ← op.prepare settings t
  let inProgress := prepared.inProgress.apply op.member t
  let answer := (CallFailure.answer prepared.call.kind failures).1
  let confirmed :=
    match answer with
    | .ok () => some (prepared.confirmed.apply op.member inProgress)
    | .error _ => none
  return { prepared, inProgress, answer, confirmed }

end ReplicaCluster
