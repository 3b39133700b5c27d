import ReplicaCluster.Topology.Bootstrap

/-!
# Planners

A planner turns what a client wants into the operations that bring it about on a given topology.
Planners change nothing; their plans are simulated before anything is stored.
-/

namespace ReplicaCluster

/-- A rule that finds the operations of a change, or says why there are none to be found. -/
abbrev Planner := Topology → Except Failure (List Operation)

/-- Performs fixed operations, whatever the topology. -/
def Planner.perform (operations : List Operation) : Planner := fun _ => .ok operations

end ReplicaCluster
