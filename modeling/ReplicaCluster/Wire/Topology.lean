import ReplicaCluster.Topology
import ReplicaCluster.Wire

/-!
# The binary form of topologies

Each type is written field by field; maps are written as the list of their entries in key order,
and read in any order, where of equal keys the last one counts.
-/

namespace ReplicaCluster

namespace Wire

def map {κ α : Type} [Ord κ] [Std.TransOrd κ] (writeKey : κ → Bytes) (write : α → Bytes)
    (m : SortedMap κ α) : Bytes :=
  list (pair writeKey write) m.toList

def readMap {κ α : Type} [Ord κ] [Std.TransOrd κ] (readKey : Reader κ) (read : Reader α) :
    Reader (SortedMap κ α) := do
  return .ofList (← readList (readPair readKey read))

end Wire

/-! ## Members -/

namespace Status

/-- Joining is 0, active 1 and leaving 2. -/
def write : Status → Bytes
  | .joining => Wire.nat 0
  | .active => Wire.nat 1
  | .leaving => Wire.nat 2

def read : Reader Status := do
  match ← Wire.readNat32 with
  | 0 => return .joining
  | 1 => return .active
  | 2 => return .leaving
  | _ => failure

end Status

namespace Replica

/-- The status comes before the priority. -/
def write (r : Replica) : Bytes := r.status.write ++ Wire.nat r.priority

def read : Reader Replica := do
  return { status := ← Status.read, priority := ← Wire.readNat32 }

end Replica

namespace Member

/-- Version, status, replicas. -/
def write (m : Member) : Bytes :=
  Wire.nat m.version ++ m.status.write ++ Wire.map Wire.nat Replica.write m.replicas

def read : Reader Member := do
  return {
    version := ← Wire.readNat64
    status := ← Status.read
    replicas := ← Wire.readMap Wire.readNat32 Replica.read }

end Member

/-! ## Operations and changes -/

namespace Operation

/-- The index of the action, the member, and what the action names. -/
def write (op : Operation) : Bytes :=
  let member := Wire.text op.member
  match op.action with
  | .joinCluster => Wire.nat 0 ++ member
  | .leaveCluster => Wire.nat 1 ++ member
  | .joinPartition p priority => Wire.nat 2 ++ member ++ Wire.nat p ++ Wire.nat priority
  | .leavePartition p => Wire.nat 3 ++ member ++ Wire.nat p
  | .setPriority p priority => Wire.nat 4 ++ member ++ Wire.nat p ++ Wire.nat priority
  | .overwriteHosts p hosts => Wire.nat 5 ++ member ++ Wire.nat p ++ Wire.list Wire.text hosts
  | .forceReconfigure p bootstrap => Wire.nat 6 ++ member ++ Wire.nat p ++ Wire.bool bootstrap

/-- Takes an operation.  An unknown index is an error even if nothing follows it. -/
def read : Reader Operation := do
  let kind ← Wire.readNat32
  if 6 < kind then failure
  let member ← Wire.readText
  match kind with
  | 0 => return ⟨member, .joinCluster⟩
  | 1 => return ⟨member, .leaveCluster⟩
  | 2 => return ⟨member, .joinPartition (← Wire.readNat32) (← Wire.readNat32)⟩
  | 3 => return ⟨member, .leavePartition (← Wire.readNat32)⟩
  | 4 => return ⟨member, .setPriority (← Wire.readNat32) (← Wire.readNat32)⟩
  | 5 => return ⟨member, .overwriteHosts (← Wire.readNat32) (← Wire.readList Wire.readText)⟩
  | _ => return ⟨member, .forceReconfigure (← Wire.readNat32) (← Wire.readBool)⟩

end Operation

namespace PendingChange

/-- The number, what remains, what is done. -/
def write (c : PendingChange) : Bytes :=
  Wire.nat c.id ++ Wire.list Operation.write c.remaining ++ Wire.list Operation.write c.done

def read : Reader PendingChange := do
  return {
    id := ← Wire.readNat64
    remaining := ← Wire.readList Operation.read
    done := ← Wire.readList Operation.read }

end PendingChange

namespace Outcome

/-- Completed is 0 and cancelled 1. -/
def write : Outcome → Bytes
  | .completed => Wire.nat 0
  | .cancelled => Wire.nat 1

def read : Reader Outcome := do
  match ← Wire.readNat32 with
  | 0 => return .completed
  | 1 => return .cancelled
  | _ => failure

end Outcome

namespace EndedChange

/-- The number, the outcome, the operations and the time of the end. -/
def write (c : EndedChange) : Bytes :=
  Wire.nat c.id ++ c.outcome.write ++ Wire.list Operation.write c.operations ++ Wire.int c.endedAt

def read : Reader EndedChange := do
  return {
    id := ← Wire.readNat64
    outcome := ← Outcome.read
    operations := ← Wire.readList Operation.read
    endedAt := ← Wire.readInt }

end EndedChange

/-! ## Topologies -/

namespace Topology

/-- Version, whether it is initialized, members, pending change, last change. -/
def write (t : Topology) : Bytes :=
  Wire.nat t.version ++ Wire.bool t.initialized ++ Wire.map Wire.text Member.write t.members ++
    Wire.option PendingChange.write t.pending ++ Wire.option EndedChange.write t.lastChange

def read : Reader Topology := do
  return {
    version := ← Wire.readNat64
    initialized := ← Wire.readBool
    members := ← Wire.readMap Wire.readText Member.read
    pending := ← Wire.readOption PendingChange.read
    lastChange := ← Wire.readOption EndedChange.read }

end Topology

end ReplicaCluster
