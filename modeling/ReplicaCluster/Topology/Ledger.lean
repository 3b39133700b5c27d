import ReplicaCluster.Failure
import ReplicaCluster.Topology.Update

/-!
# The ledger of changes

A topology carries at most one pending change.  Starting a change gives it the number after that
of the last one; advancing it confirms its next operation; it ends when its last operation is
confirmed or when it is cancelled, and leaves a record of what was carried out.

The present time is an argument of whatever may end a change.
-/

namespace ReplicaCluster

namespace Topology

/-- The number that the next change gets. -/
def nextChangeId (t : Topology) : Nat := (t.lastChange.map (·.id)).getD 0 + 1

/-- Begins a change.  Refused while another one is pending, and for a change without
operations. -/
def startChange (t : Topology) (operations : List Operation) : Except Failure Topology :=
  match t.pending with
  | some c => refuse (.changeInProgress c.id)
  | none =>
      if operations.isEmpty then refuse .emptyChange
      else
        .ok { t with
          version := t.version + 1
          pending := some (.start t.nextChangeId operations) }

/-- Keeps a change pending while it has operations left, and records it as completed
otherwise. -/
def settle (t : Topology) (now : Int) (c : PendingChange) : Topology :=
  if c.remaining.isEmpty then
    { t with pending := none, lastChange := some ⟨c.id, .completed, c.done, now⟩ }
  else { t with pending := some c }

/-- Confirms the next operation, which must be one of `member`, by an update.  A change whose
last operation this was is completed. -/
def advanceChange (t : Topology) (now : Int) (member : MemberId) (confirmed : Update) :
    Except Failure Topology :=
  match t.next? with
  | none => refuse .nothingToAdvance
  | some op =>
      if op.member = member then
        let updated := confirmed.apply member t
        -- No update touches the pending change, so this is still the one that was advanced.
        let settled :=
          match updated.pending with
          | some c => updated.settle now c.advance
          | none => updated
        .ok { settled with version := settled.version + 1 }
      else refuse (.operationOfOtherMember op member)

/-- Ends the pending change, if there is one.  What it has done stays done. -/
def cancelChange (t : Topology) (now : Int) : Topology :=
  match t.pending with
  | some c =>
      { t with
        version := t.version + 1
        pending := none
        lastChange := some ⟨c.id, .cancelled, c.done, now⟩ }
  | none => t

end Topology

end ReplicaCluster
