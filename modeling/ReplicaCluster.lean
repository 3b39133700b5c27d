import ReplicaCluster.Main
import ReplicaCluster.Proofs.Admin.Limit
import ReplicaCluster.Proofs.CommandLine.Expression
import ReplicaCluster.Proofs.Coordinator.Convergence
import ReplicaCluster.Proofs.Coordinator.Growth
import ReplicaCluster.Proofs.Coordinator.Idempotence
import ReplicaCluster.Proofs.Coordinator.Overwriting
import ReplicaCluster.Proofs.Coordinator.Recovery
import ReplicaCluster.Proofs.Coordinator.Removal
import ReplicaCluster.Proofs.Coordinator.Resumption
import ReplicaCluster.Proofs.Interleaving.Calls
import ReplicaCluster.Proofs.Interleaving.LiveCopies
import ReplicaCluster.Proofs.Interleaving.Losses
import ReplicaCluster.Proofs.Interleaving.Priorities
import ReplicaCluster.Proofs.Interleaving.Transitions
import ReplicaCluster.Proofs.Interleaving.Versions
import ReplicaCluster.Proofs.Management.Traceless
import ReplicaCluster.Proofs.Placement.Evenness
import ReplicaCluster.Proofs.Planning.Leadership
import ReplicaCluster.Proofs.Store.Restart
import ReplicaCluster.Proofs.Store.Unreadable
import ReplicaCluster.Rehearsal.Trial

/-!
# ReplicaCluster

Membership, placement and change management of a cluster that replicates partitions.
-/
