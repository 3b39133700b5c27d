import ReplicaCluster.Member

/-!
# Settings of the execution
-/

namespace ReplicaCluster

/-- What every execution of operations has to respect. -/
structure Settings where
  /-- The number of replicas that every partition keeps when a host leaves it; 0 counts as 1. -/
  replicationFactor : Nat := 1
  /-- The member that may overwrite the hosts of a partition. -/
  coordinator : Option MemberId := none
  deriving DecidableEq, Repr

/-- The number of replicas below which no departure may bring a partition. -/
def Settings.floor (s : Settings) : Nat := max s.replicationFactor 1

end ReplicaCluster
