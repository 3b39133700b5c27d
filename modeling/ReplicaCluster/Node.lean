import ReplicaCluster.Store
import ReplicaCluster.Topology.Bootstrap

/-!
# Nodes

A node that starts finds the topology of its cluster in the store, or puts the first one there.
A restart with any configuration leaves an initialized topology as it is.
-/

namespace ReplicaCluster

namespace Node

/-- The revision that a starting node makes: the first topology of the cluster, unless there is
one already. -/
def bootstrap (members : List MemberId) (partitionCount replicationFactor : Nat) : Revision :=
  fun stored =>
    if stored.initialized then .ok stored
    else Topology.bootstrap members partitionCount replicationFactor

/-- What a node says when it cannot start. -/
def bootstrapMessage (f : Failure) : String := "failed to bootstrap topology: " ++ f.message

/-- What a node is set up with. -/
structure Setup where
  /-- The member that the node is. -/
  member : MemberId := "0"
  initialMembers : List MemberId := ["0", "1", "2"]
  partitionCount : Nat := 3
  replicationFactor : Nat := 3
  /-- The directory in which the node keeps its topology. -/
  dataDirectory : String := "/var/lib/yggdrasil"
  /-- The milliseconds between two turns of the driver. -/
  pollInterval : UInt32 := 1000

namespace Setup

/-- The settings with which the node handles requests and drives changes.  It is the one that may
overwrite the hosts of a partition. -/
def settings (s : Setup) : Settings := ⟨s.replicationFactor, some s.member⟩

/-- Bootstraps the cluster, if the store holds none. -/
def start (s : Setup) (store : Store) : Except Failure Topology × Store :=
  store.update (bootstrap s.initialMembers s.partitionCount s.replicationFactor)

end Setup

end Node

end ReplicaCluster
