import ReplicaCluster.Operation

/-!
# Failures

A request can fail in four ways.  What clients see of a failure is its kind and a reason in
words; failures reported by other parties (a member, the store) arrive in this form too.

The failures that this library itself raises are listed as causes, so that a law can say which
one arises; their kinds and wording stand in one place.
-/

namespace ReplicaCluster

/-- The four kinds of failure. -/
inductive FailureKind
  /-- Another change is in progress, or the stored topology moved on meanwhile. -/
  | concurrentModification
  /-- The request cannot be carried out on this topology. -/
  | invalidRequest
  /-- The topology is not initialized yet. -/
  | operationNotAllowed
  /-- A member, the store or the library itself failed. -/
  | internal
  deriving DecidableEq, Repr

/-- A failure as it is reported. -/
structure Failure where
  kind : FailureKind
  reason : String
  deriving DecidableEq, Repr

/-- The words that open the message of a failure. -/
def FailureKind.label : FailureKind → String
  | .concurrentModification => "concurrent modification"
  | .invalidRequest => "invalid request"
  | .operationNotAllowed => "operation not allowed"
  | .internal => "internal error"

/-- The whole message: kind and reason. -/
def Failure.message (f : Failure) : String := f.kind.label ++ ": " ++ f.reason

/-- Why the library refuses or gives up. -/
inductive Cause
  -- bootstrap
  | noInitialMembers
  | replicationFactorOutOfRange (factor members : Nat)
  -- starting, advancing and cancelling changes
  | changeInProgress (change : Nat)
  | emptyChange
  | operationOfOtherMember (operation : Operation) (member : MemberId)
  | nothingToAdvance
  | notInitialized
  | planOutdated
  | changeMovedOn (change : Nat) (operation : Operation)
  | cancelBeforeInitialized
  | cancelWithoutChange (change : Nat)
  | cancelOfOtherChange (change pending : Nat)
  -- planning
  | noMembersGiven
  | reassignToUnknown (member : MemberId)
  | zeroReplicationFactor
  | tooFewMembers (members factor : Nat)
  | noReplacement (member : MemberId) (partition : PartitionId) (remaining factor : Nat)
  | scaleToNothing
  | removesNoKnownMember
  | removesEveryMember
  -- single operations
  | unknownMember (member : MemberId)
  | memberNotActive (member : MemberId)
  | alreadyMember (member : MemberId)
  | stillJoining (member : MemberId)
  | stillHosts (member : MemberId) (partitions : List PartitionId)
  | alreadyHosts (member : MemberId) (partition : PartitionId)
  | nothingToJoin (partition : PartitionId)
  | doesNotHost (member : MemberId) (partition : PartitionId)
  | belowReplicationFactor (partition : PartitionId) (remaining floor : Nat)
  | replicaNotActive (partition : PartitionId) (member : MemberId)
  | notCoordinator (member : MemberId) (partition : PartitionId)
  | noHostsGiven (partition : PartitionId)
  | duplicateHosts (partition : PartitionId)
  | memberLeaving (member : MemberId)
  -- stored bytes
  | undecodable
  | unsupportedFormat (version : Nat)
  deriving DecidableEq, Repr

namespace Cause

/-- The kind of failure that a cause makes. -/
def kind : Cause → FailureKind
  | .changeInProgress .. | .planOutdated | .changeMovedOn .. => .concurrentModification
  | .notInitialized => .operationNotAllowed
  | .operationOfOtherMember .. | .nothingToAdvance | .undecodable | .unsupportedFormat .. =>
      .internal
  | _ => .invalidRequest

/-- A cause in words. -/
def reason : Cause → String
  | .noInitialMembers => "cannot bootstrap a topology without members"
  | .replicationFactorOutOfRange factor members =>
      s!"replication factor {factor} must be between 1 and the member count {members}"
  | .changeInProgress change => s!"change {change} is still in progress"
  | .emptyChange => "a topology change needs at least one operation"
  | .operationOfOtherMember operation member =>
      let op := operation.text
      s!"next pending operation {op} does not belong to member {member}"
  | .nothingToAdvance => "no pending operation to advance"
  | .notInitialized => "the cluster topology is not initialized yet"
  | .planOutdated => "the topology changed while the request was planned"
  | .changeMovedOn change operation =>
      let op := operation.text
      s!"change {change} moved on before {op} started"
  | .cancelBeforeInitialized => "cannot cancel a change before the topology is initialized"
  | .cancelWithoutChange change => s!"cannot cancel change {change}: no change is in progress"
  | .cancelOfOtherChange change pending =>
      s!"cannot cancel change {change}: change {pending} is in progress"
  | .noMembersGiven => "members must not be empty"
  | .reassignToUnknown member => s!"cannot reassign partitions to unknown member {member}"
  | .zeroReplicationFactor => "replication factor must be at least 1"
  | .tooFewMembers members factor =>
      s!"{members} members cannot hold {factor} replicas per partition"
  | .noReplacement member partition remaining factor =>
      s!"cannot remove member {member}: partition {partition} would keep {remaining} of " ++
        s!"{factor} replicas and no other member can host it"
  | .scaleToNothing => "cannot scale to an empty cluster"
  | .removesNoKnownMember => "none of the members to remove are part of the cluster"
  | .removesEveryMember => "cannot remove every member of the cluster"
  | .unknownMember member => s!"unknown member {member}"
  | .memberNotActive member => s!"member {member} is not active"
  | .alreadyMember member => s!"member {member} is already part of the cluster"
  | .stillJoining member => s!"member {member} has not finished joining"
  | .stillHosts member partitions =>
      let list := ", ".intercalate (partitions.map toString)
      s!"member {member} still replicates partitions [{list}]"
  | .alreadyHosts member partition => s!"member {member} already replicates partition {partition}"
  | .nothingToJoin partition => s!"partition {partition} has no replicas to join"
  | .doesNotHost member partition => s!"member {member} does not replicate partition {partition}"
  | .belowReplicationFactor partition remaining floor =>
      s!"partition {partition} would keep {remaining} replicas, below the replication factor {floor}"
  | .replicaNotActive partition member =>
      s!"replica of partition {partition} on member {member} is not active"
  | .notCoordinator member partition =>
      s!"member {member} is not the coordinator and cannot overwrite partition {partition}"
  | .noHostsGiven partition => s!"partition {partition} needs at least one replica"
  | .duplicateHosts partition =>
      s!"duplicate members in the new configuration of partition {partition}"
  | .memberLeaving member => s!"member {member} is leaving the cluster"
  | .undecodable => "undecodable"
  | .unsupportedFormat version => s!"unsupported topology format version {version}"

/-- The failure that reports a cause. -/
def failure (c : Cause) : Failure := ⟨c.kind, c.reason⟩

end Cause

/-- Ends a computation with the failure of a cause. -/
def refuse {α : Type} (c : Cause) : Except Failure α := .error c.failure

end ReplicaCluster
