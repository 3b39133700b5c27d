import ReplicaCluster.Management.Request
import ReplicaCluster.Wire.Topology

/-!
# The binary form of requests and replies
-/

namespace ReplicaCluster

namespace Request

/-- The index of the request and what belongs to it; where there can be a dry run, the flag for
it comes last. -/
def write : Request → Bytes
  | .addMembers members dryRun => Wire.nat 0 ++ Wire.list Wire.text members ++ Wire.bool dryRun
  | .removeMembers members dryRun => Wire.nat 1 ++ Wire.list Wire.text members ++ Wire.bool dryRun
  | .joinPartition member p priority dryRun =>
      Wire.nat 2 ++ Wire.text member ++ Wire.nat p ++ Wire.nat priority ++ Wire.bool dryRun
  | .leavePartition member p dryRun =>
      Wire.nat 3 ++ Wire.text member ++ Wire.nat p ++ Wire.bool dryRun
  | .reassign members dryRun => Wire.nat 4 ++ Wire.list Wire.text members ++ Wire.bool dryRun
  | .scale members dryRun => Wire.nat 5 ++ Wire.list Wire.text members ++ Wire.bool dryRun
  | .cancel change => Wire.nat 6 ++ Wire.nat change
  | .forceOverwrite members => Wire.nat 7 ++ Wire.list Wire.text members
  | .topology => Wire.nat 8

def read : Reader Request := do
  match ← Wire.readNat32 with
  | 0 => return .addMembers (← Wire.readList Wire.readText) (← Wire.readBool)
  | 1 => return .removeMembers (← Wire.readList Wire.readText) (← Wire.readBool)
  | 2 =>
      return .joinPartition (← Wire.readText) (← Wire.readNat32) (← Wire.readNat32)
        (← Wire.readBool)
  | 3 => return .leavePartition (← Wire.readText) (← Wire.readNat32) (← Wire.readBool)
  | 4 => return .reassign (← Wire.readList Wire.readText) (← Wire.readBool)
  | 5 => return .scale (← Wire.readList Wire.readText) (← Wire.readBool)
  | 6 => return .cancel (← Wire.readNat64)
  | 7 => return .forceOverwrite (← Wire.readList Wire.readText)
  | 8 => return .topology
  | _ => failure

end Request

namespace ChangeSummary

/-- The number, the members before and after, the operations. -/
def write (s : ChangeSummary) : Bytes :=
  Wire.nat s.changeId ++ Wire.map Wire.text Member.write s.currentMembers ++
    Wire.map Wire.text Member.write s.expectedMembers ++ Wire.list Operation.write s.operations

def read : Reader ChangeSummary := do
  return {
    changeId := ← Wire.readNat64
    currentMembers := ← Wire.readMap Wire.readText Member.read
    expectedMembers := ← Wire.readMap Wire.readText Member.read
    operations := ← Wire.readList Operation.read }

end ChangeSummary

namespace Response

/-- A change is 0 and a topology 1. -/
def write : Response → Bytes
  | .change summary => Wire.nat 0 ++ summary.write
  | .topology t => Wire.nat 1 ++ t.write

def read : Reader Response := do
  match ← Wire.readNat32 with
  | 0 => return .change (← ChangeSummary.read)
  | 1 => return .topology (← Topology.read)
  | _ => failure

end Response

namespace FailureKind

/-- The index of a kind is its place in the list of the four. -/
def write : FailureKind → Bytes
  | .concurrentModification => Wire.nat 0
  | .invalidRequest => Wire.nat 1
  | .operationNotAllowed => Wire.nat 2
  | .internal => Wire.nat 3

def read : Reader FailureKind := do
  match ← Wire.readNat32 with
  | 0 => return .concurrentModification
  | 1 => return .invalidRequest
  | 2 => return .operationNotAllowed
  | 3 => return .internal
  | _ => failure

end FailureKind

namespace Failure

/-- The kind and the reason, without the words that open a message. -/
def write (f : Failure) : Bytes := f.kind.write ++ Wire.text f.reason

def read : Reader Failure := do
  return { kind := ← FailureKind.read, reason := ← Wire.readText }

end Failure

namespace Reply

/-- A response follows 0 and a failure follows 1. -/
def write : Reply → Bytes
  | .ok response => Wire.nat 0 ++ response.write
  | .error f => Wire.nat 1 ++ f.write

def read : Reader Reply := do
  match ← Wire.readNat32 with
  | 0 => return .ok (← Response.read)
  | 1 => return .error (← Failure.read)
  | _ => failure

end Reply

end ReplicaCluster
