import ReplicaCluster.Planning.Evacuation
import ReplicaCluster.Planning.Growth
import ReplicaCluster.Planning.Reassignment

/-!
# Intents

What a client wants to change, as data, and the planner for it.
-/

namespace ReplicaCluster

/-- A change that a client asks for. -/
inductive Intent
  | addMembers (members : List MemberId) (replicationFactor : Nat)
  | removeMembers (members : List MemberId) (replicationFactor : Nat)
  | reassign (members : List MemberId) (replicationFactor : Nat)
  | scale (members : List MemberId) (replicationFactor : Nat)
  /-- Exactly these operations. -/
  | perform (operations : List Operation)
  /-- A change whose planning fails. -/
  | abandon (failure : Failure)
  deriving DecidableEq, Repr

/-- The planner for an intent. -/
def Intent.planner : Intent → Planner
  | .addMembers members factor => .addMembers members factor
  | .removeMembers members factor => .removeMembers members factor
  | .reassign members factor => .reassign members factor
  | .scale members factor => .scale members factor
  | .perform operations => .perform operations
  | .abandon failure => fun _ => .error failure

end ReplicaCluster
