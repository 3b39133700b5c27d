import ReplicaCluster.Failure
import ReplicaCluster.Topology

/-!
# Management requests and responses

What clients may ask of a node, and what it answers.  A response can be printed for people.
-/

namespace ReplicaCluster

/-- A management request.  A dry run tells what would happen and stores nothing. -/
inductive Request
  | addMembers (members : List MemberId) (dryRun : Bool)
  | removeMembers (members : List MemberId) (dryRun : Bool)
  | joinPartition (member : MemberId) (partition : PartitionId) (priority : Priority)
      (dryRun : Bool)
  | leavePartition (member : MemberId) (partition : PartitionId) (dryRun : Bool)
  | reassign (members : List MemberId) (dryRun : Bool)
  | scale (members : List MemberId) (dryRun : Bool)
  | cancel (change : Nat)
  /-- Drops members without their cooperation. -/
  | forceOverwrite (members : List MemberId)
  | topology
  deriving DecidableEq, Repr

/-- What a request for a change did, or would do. -/
structure ChangeSummary where
  /-- The number of the change, or 0 if none was started. -/
  changeId : Nat
  currentMembers : SortedMap MemberId Member
  expectedMembers : SortedMap MemberId Member
  operations : List Operation
  deriving DecidableEq

/-- The answer to a management request. -/
inductive Response
  | change (summary : ChangeSummary)
  | topology (topology : Topology)
  deriving DecidableEq

/-- What a node answers: a response or a failure. -/
abbrev Reply := Except Failure Response

/-! ## Text -/

/-- One line on a member: its status, and the priority of each replica. -/
def Member.line (id : MemberId) (m : Member) : String :=
  let status := m.status.label
  let replicas := ", ".intercalate <| m.replicas.toList.map fun (p, r) =>
    let priority := r.priority
    s!"{p}:{priority}"
  s!"  {id} {status} [{replicas}]\n"

/-- The lines on all members. -/
def memberLines (members : SortedMap MemberId Member) : String :=
  String.join (members.toList.map fun (id, m) => m.line id)

/-- A change in words, line by line. -/
def ChangeSummary.text (s : ChangeSummary) : String :=
  let id := s.changeId
  s!"change id: {id}\n" ++
    "operations:\n" ++ String.join (s.operations.map fun op => "  " ++ op.text ++ "\n") ++
    "current members:\n" ++ memberLines s.currentMembers ++
    "expected members:\n" ++ memberLines s.expectedMembers

/-- A topology in words, line by line. -/
def Topology.text (t : Topology) : String :=
  if t.initialized then
    let version := t.version
    let pending :=
      match t.pending with
      | some c =>
          let id := c.id
          let left := c.remaining.length
          s!"pending change: {id} ({left} operations left)\n"
      | none => "pending change: none\n"
    let last :=
      match t.lastChange with
      | some c =>
          let id := c.id
          let outcome := c.outcome.label
          s!"last change: {id} ({outcome})\n"
      | none => ""
    s!"version: {version}\n" ++ pending ++ last ++ "members:\n" ++ memberLines t.members
  else "topology not initialized\n"

/-- A response in words. -/
def Response.text : Response → String
  | .change summary => summary.text
  | .topology t => t.text

end ReplicaCluster
