import ReplicaCluster.Coordinator
import ReplicaCluster.Management.Request
import ReplicaCluster.Planning.Intent

/-!
# Handling management requests

Every request becomes one run of the coordinator.  Plans are made for the replication factor
that the execution enforces.
-/

namespace ReplicaCluster

namespace ChangeResult

/-- What clients are told about a change. -/
def summary (r : ChangeResult) : ChangeSummary :=
  ⟨r.changeId, r.current.members, r.final.members, r.operations⟩

end ChangeResult

namespace Request

/-- Requests about a set of members name at least one. -/
def checkMembers (members : List MemberId) : Except Failure Unit :=
  if members.isEmpty then refuse .noMembersGiven else .ok ()

/-- Requests a change for a set of members. -/
def change (settings : Settings) (now : Int) (dryRun : Bool) (intent : Intent) :
    Process Response :=
  (Coordinator.request settings now dryRun intent.planner).map fun r => .change r.summary

/-- Goes on if a set of members is not empty. -/
def withMembers (members : List MemberId) (next : Process Response) : Process Response :=
  match checkMembers members with
  | .ok () => next
  | .error e => .fail e

/-- Handles a request. -/
def handle (settings : Settings) (now : Int) : Request → Process Response
  | .addMembers members dryRun =>
      withMembers members <|
        change settings now dryRun (.addMembers members settings.replicationFactor)
  | .removeMembers members dryRun =>
      withMembers members <|
        change settings now dryRun (.removeMembers members settings.replicationFactor)
  | .joinPartition member p priority dryRun =>
      change settings now dryRun (.perform [⟨member, .joinPartition p priority⟩])
  | .leavePartition member p dryRun =>
      change settings now dryRun (.perform [⟨member, .leavePartition p⟩])
  | .reassign members dryRun =>
      withMembers members <|
        change settings now dryRun (.reassign members settings.replicationFactor)
  | .scale members dryRun =>
      withMembers members <|
        change settings now dryRun (.scale members settings.replicationFactor)
  | .cancel id => (Coordinator.cancel now id).map .topology
  | .forceOverwrite members =>
      withMembers members <|
        (Coordinator.recover settings now members).map fun r => .change r.summary
  | .topology => Coordinator.topology.map .topology

end Request

end ReplicaCluster
