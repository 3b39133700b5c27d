import ReplicaCluster.Proofs.Wire.Topology
import ReplicaCluster.Wire.Management

/-!
# Requests and replies are read again

The binary form of a request is read as that request, and that of a reply as that reply, whether it
is a response or a failure.  As for topologies, all that is asked is that every number has the width
that the format has for it (`Request.Fits`, `Reply.Fits`).
-/

namespace ReplicaCluster

open Wire Reader

/-! ## Requests -/

namespace Request

def Fits : Request → Prop
  | .addMembers members _ | .removeMembers members _ | .reassign members _ | .scale members _
  | .forceOverwrite members => Listed Text members
  | .joinPartition member p priority _ => Text member ∧ Nat32 p ∧ Nat32 priority
  | .leavePartition member p _ => Text member ∧ Nat32 p
  | .cancel change => Nat64 change
  | .topology => True

instance : (r : Request) → Decidable r.Fits
  | .addMembers members _ | .removeMembers members _ | .reassign members _ | .scale members _
  | .forceOverwrite members => inferInstanceAs (Decidable (Listed Text members))
  | .joinPartition member p priority _ =>
      inferInstanceAs (Decidable (Text member ∧ Nat32 p ∧ Nat32 priority))
  | .leavePartition member p _ => inferInstanceAs (Decidable (Text member ∧ Nat32 p))
  | .cancel change => inferInstanceAs (Decidable (Nat64 change))
  | .topology => inferInstanceAs (Decidable True)

theorem inverts_read : Request.read.Inverts write Fits := by
  intro r fits rest
  -- Each kind of request has an index of its own, and its parts are read in their order.
  have hindex (index : Nat) (h : index ≤ 8) := inverts_readNat32 index (by unfold Nat32; omega)
  have hmembers := inverts_readList inverts_readText
  have hdryRun (dryRun : Bool) := inverts_readBool dryRun trivial
  cases r with
  | addMembers members dryRun =>
      simp [read, write, hindex, hmembers members fits, hdryRun]
  | removeMembers members dryRun =>
      simp [read, write, hindex, hmembers members fits, hdryRun]
  | joinPartition member p priority dryRun =>
      rcases fits with ⟨hmember, hp, hpriority⟩
      simp [read, write, hindex, inverts_readText member hmember, inverts_readNat32 p hp,
        inverts_readNat32 priority hpriority, hdryRun]
  | leavePartition member p dryRun =>
      rcases fits with ⟨hmember, hp⟩
      simp [read, write, hindex, inverts_readText member hmember, inverts_readNat32 p hp, hdryRun]
  | reassign members dryRun =>
      simp [read, write, hindex, hmembers members fits, hdryRun]
  | scale members dryRun =>
      simp [read, write, hindex, hmembers members fits, hdryRun]
  | cancel change => simp [read, write, hindex, inverts_readNat64 change fits]
  | forceOverwrite members => simp [read, write, hindex, hmembers members fits]
  | topology => simp [read, write, hindex]

end Request

/-! ## Responses -/

namespace ChangeSummary

structure Fits (s : ChangeSummary) : Prop where
  changeId : Nat64 s.changeId
  currentMembers : Mapped Text Member.Fits s.currentMembers
  expectedMembers : Mapped Text Member.Fits s.expectedMembers
  operations : Listed Operation.Fits s.operations

instance (s : ChangeSummary) : Decidable s.Fits :=
  decidable_of_iff (Nat64 s.changeId ∧ Mapped Text Member.Fits s.currentMembers ∧
      Mapped Text Member.Fits s.expectedMembers ∧ Listed Operation.Fits s.operations)
    ⟨fun h => ⟨h.1, h.2.1, h.2.2.1, h.2.2.2⟩,
      fun h => ⟨h.changeId, h.currentMembers, h.expectedMembers, h.operations⟩⟩

theorem inverts_read : ChangeSummary.read.Inverts write Fits := by
  intro s fits rest
  have hmembers := inverts_readMap inverts_readText Member.inverts_read
  simp [read, write, inverts_readNat64 s.changeId fits.changeId,
    hmembers s.currentMembers fits.currentMembers, hmembers s.expectedMembers fits.expectedMembers,
    inverts_readList Operation.inverts_read s.operations fits.operations]

end ChangeSummary

namespace Response

def Fits : Response → Prop
  | .change summary => summary.Fits
  | .topology t => t.Fits

instance : (r : Response) → Decidable r.Fits
  | .change summary => inferInstanceAs (Decidable summary.Fits)
  | .topology t => inferInstanceAs (Decidable t.Fits)

theorem inverts_read : Response.read.Inverts write Fits := by
  intro r fits rest
  cases r with
  | change summary =>
      simp [read, write, inverts_readNat32 0 (by decide), ChangeSummary.inverts_read summary fits]
  | topology t =>
      simp [read, write, inverts_readNat32 1 (by decide), Topology.inverts_read t fits]

end Response

/-! ## Failures and replies -/

namespace FailureKind

theorem inverts_read : FailureKind.read.Inverts write fun _ => True := by
  intro kind _ rest
  cases kind with
  | concurrentModification => simp [read, write, inverts_readNat32 0 (by decide)]
  | invalidRequest => simp [read, write, inverts_readNat32 1 (by decide)]
  | operationNotAllowed => simp [read, write, inverts_readNat32 2 (by decide)]
  | internal => simp [read, write, inverts_readNat32 3 (by decide)]

end FailureKind

namespace Failure

theorem inverts_read : Failure.read.Inverts write fun f => Text f.reason := by
  intro f fits rest
  simp [read, write, FailureKind.inverts_read f.kind trivial, inverts_readText f.reason fits]

end Failure

namespace Reply

def Fits : Reply → Prop
  | .ok response => response.Fits
  | .error f => Text f.reason

instance : (r : Reply) → Decidable r.Fits
  | .ok response => inferInstanceAs (Decidable response.Fits)
  | .error f => inferInstanceAs (Decidable (Text f.reason))

theorem inverts_read : Reply.read.Inverts write Fits := by
  intro r fits rest
  cases r with
  | ok response =>
      simp [read, write, inverts_readNat32 0 (by decide), Response.inverts_read response fits]
  | error f =>
      simp [read, write, inverts_readNat32 1 (by decide), Failure.inverts_read f fits]

end Reply

end ReplicaCluster
