import ReplicaCluster.Proofs.Wire.RoundTrip

/-!
# The binary form of topologies is read again

Numbers have a width in the binary form: partitions and priorities take 32 bits, versions, numbers
of changes and lengths 64.  `Topology.Fits` asks just that of all parts of a topology.  What fits
is read again as it was written, and the readers do not look beyond it.
-/

namespace ReplicaCluster

open Wire Reader

/-! ## Members -/

namespace Status

theorem inverts_read : Status.read.Inverts write fun _ => True := by
  intro status _ rest
  cases status with
  | joining => simp [read, write, inverts_readNat32 0 (by decide)]
  | active => simp [read, write, inverts_readNat32 1 (by decide)]
  | leaving => simp [read, write, inverts_readNat32 2 (by decide)]

theorem stable_read : Status.read.Stable := by
  refine stable_readNat32.bind fun index => ?_
  split
  · exact stable_pure joining
  · exact stable_pure active
  · exact stable_pure leaving
  · exact stable_failure

end Status

namespace Replica

def Fits (r : Replica) : Prop := Nat32 r.priority

instance (r : Replica) : Decidable r.Fits := inferInstanceAs (Decidable (Nat32 _))

theorem inverts_read : Replica.read.Inverts write Fits := by
  intro r fits rest
  simp [read, write, Status.inverts_read r.status trivial, inverts_readNat32 r.priority fits]

theorem stable_read : Replica.read.Stable :=
  Status.stable_read.bind fun status => stable_readNat32.map (Replica.mk status)

end Replica

namespace Member

structure Fits (m : Member) : Prop where
  version : Nat64 m.version
  replicas : Mapped Nat32 Replica.Fits m.replicas

instance (m : Member) : Decidable m.Fits :=
  decidable_of_iff (Nat64 m.version ∧ Mapped Nat32 Replica.Fits m.replicas)
    ⟨fun h => ⟨h.1, h.2⟩, fun h => ⟨h.version, h.replicas⟩⟩

theorem inverts_read : Member.read.Inverts write Fits := by
  intro m fits rest
  have hreplicas := inverts_readMap inverts_readNat32 Replica.inverts_read m.replicas fits.replicas
  simp [read, write, inverts_readNat64 m.version fits.version,
    Status.inverts_read m.status trivial, hreplicas]

theorem stable_read : Member.read.Stable :=
  stable_readNat64.bind fun version => Status.stable_read.bind fun status =>
    (stable_readMap stable_readNat32 Replica.stable_read).map (Member.mk version status)

end Member

/-! ## Operations and changes -/

def Action.Fits : Action → Prop
  | .joinCluster | .leaveCluster => True
  | .joinPartition p priority | .setPriority p priority => Nat32 p ∧ Nat32 priority
  | .leavePartition p | .forceReconfigure p _ => Nat32 p
  | .overwriteHosts p hosts => Nat32 p ∧ Listed Text hosts

instance : (action : Action) → Decidable action.Fits
  | .joinCluster | .leaveCluster => inferInstanceAs (Decidable True)
  | .joinPartition p priority | .setPriority p priority =>
      inferInstanceAs (Decidable (Nat32 p ∧ Nat32 priority))
  | .leavePartition p | .forceReconfigure p _ => inferInstanceAs (Decidable (Nat32 p))
  | .overwriteHosts p hosts => inferInstanceAs (Decidable (Nat32 p ∧ Listed Text hosts))

namespace Operation

structure Fits (op : Operation) : Prop where
  member : Text op.member
  action : op.action.Fits

instance (op : Operation) : Decidable op.Fits :=
  decidable_of_iff (Text op.member ∧ op.action.Fits)
    ⟨fun h => ⟨h.1, h.2⟩, fun h => ⟨h.member, h.action⟩⟩

theorem inverts_read : Operation.read.Inverts write Fits := by
  rintro ⟨member, action⟩ ⟨hmember, haction⟩ rest
  -- Each action has an index of its own, and what belongs to it is read field by field.
  have hindex (index : Nat) (h : index ≤ 6) := inverts_readNat32 index (by unfold Nat32; omega)
  have htext := inverts_readText member hmember
  cases action with
  | joinCluster => simp [read, write, hindex, htext]
  | leaveCluster => simp [read, write, hindex, htext]
  | joinPartition p priority =>
      simp [read, write, hindex, htext, inverts_readNat32 p haction.1,
        inverts_readNat32 priority haction.2]
  | leavePartition p => simp [read, write, hindex, htext, inverts_readNat32 p haction]
  | setPriority p priority =>
      simp [read, write, hindex, htext, inverts_readNat32 p haction.1,
        inverts_readNat32 priority haction.2]
  | overwriteHosts p hosts =>
      simp [read, write, hindex, htext, inverts_readNat32 p haction.1,
        inverts_readList inverts_readText hosts haction.2]
  | forceReconfigure p bootstrap =>
      simp [read, write, hindex, htext, inverts_readNat32 p haction,
        inverts_readBool bootstrap trivial]

theorem stable_read : Operation.read.Stable := by
  refine stable_readNat32.bind fun index => ?_
  by_cases hknown : 6 < index
  · simpa only [hknown, if_true, failure_bind] using stable_failure
  · simp only [hknown, if_false]
    refine stable_readText.bind fun member => ?_
    split
    · exact stable_pure _
    · exact stable_pure _
    · exact stable_readNat32.bind fun p => stable_readNat32.map fun priority =>
        Operation.mk member (.joinPartition p priority)
    · exact stable_readNat32.map fun p => Operation.mk member (.leavePartition p)
    · exact stable_readNat32.bind fun p => stable_readNat32.map fun priority =>
        Operation.mk member (.setPriority p priority)
    · exact stable_readNat32.bind fun p => (stable_readList stable_readText).map fun hosts =>
        Operation.mk member (.overwriteHosts p hosts)
    · exact stable_readNat32.bind fun p => stable_readBool.map fun bootstrap =>
        Operation.mk member (.forceReconfigure p bootstrap)

end Operation

namespace PendingChange

structure Fits (c : PendingChange) : Prop where
  id : Nat64 c.id
  remaining : Listed Operation.Fits c.remaining
  done : Listed Operation.Fits c.done

instance (c : PendingChange) : Decidable c.Fits :=
  decidable_of_iff
    (Nat64 c.id ∧ Listed Operation.Fits c.remaining ∧ Listed Operation.Fits c.done)
    ⟨fun h => ⟨h.1, h.2.1, h.2.2⟩, fun h => ⟨h.id, h.remaining, h.done⟩⟩

theorem inverts_read : PendingChange.read.Inverts write Fits := by
  intro c fits rest
  have hoperations := inverts_readList Operation.inverts_read
  simp [read, write, inverts_readNat64 c.id fits.id, hoperations c.remaining fits.remaining,
    hoperations c.done fits.done]

theorem stable_read : PendingChange.read.Stable :=
  stable_readNat64.bind fun id => (stable_readList Operation.stable_read).bind fun remaining =>
    (stable_readList Operation.stable_read).map (PendingChange.mk id remaining)

end PendingChange

namespace Outcome

theorem inverts_read : Outcome.read.Inverts write fun _ => True := by
  intro outcome _ rest
  cases outcome with
  | completed => simp [read, write, inverts_readNat32 0 (by decide)]
  | cancelled => simp [read, write, inverts_readNat32 1 (by decide)]

theorem stable_read : Outcome.read.Stable := by
  refine stable_readNat32.bind fun index => ?_
  split
  · exact stable_pure completed
  · exact stable_pure cancelled
  · exact stable_failure

end Outcome

namespace EndedChange

structure Fits (c : EndedChange) : Prop where
  id : Nat64 c.id
  operations : Listed Operation.Fits c.operations
  endedAt : Int64 c.endedAt

instance (c : EndedChange) : Decidable c.Fits :=
  decidable_of_iff (Nat64 c.id ∧ Listed Operation.Fits c.operations ∧ Int64 c.endedAt)
    ⟨fun h => ⟨h.1, h.2.1, h.2.2⟩, fun h => ⟨h.id, h.operations, h.endedAt⟩⟩

theorem inverts_read : EndedChange.read.Inverts write Fits := by
  intro c fits rest
  simp [read, write, inverts_readNat64 c.id fits.id, Outcome.inverts_read c.outcome trivial,
    inverts_readList Operation.inverts_read c.operations fits.operations,
    inverts_readInt c.endedAt fits.endedAt]

theorem stable_read : EndedChange.read.Stable :=
  stable_readNat64.bind fun id => Outcome.stable_read.bind fun outcome =>
    (stable_readList Operation.stable_read).bind fun operations =>
      stable_readInt.map (EndedChange.mk id outcome operations)

end EndedChange

/-! ## Topologies -/

namespace Topology

/-- Every number of the topology takes no more than the width that the format has for it. -/
structure Fits (t : Topology) : Prop where
  version : Nat64 t.version
  members : Mapped Text Member.Fits t.members
  pending : ∀ c ∈ t.pending, c.Fits
  lastChange : ∀ c ∈ t.lastChange, c.Fits

instance (t : Topology) : Decidable t.Fits :=
  decidable_of_iff (Nat64 t.version ∧ Mapped Text Member.Fits t.members ∧
      (∀ c ∈ t.pending, c.Fits) ∧ ∀ c ∈ t.lastChange, c.Fits)
    ⟨fun h => ⟨h.1, h.2.1, h.2.2.1, h.2.2.2⟩,
      fun h => ⟨h.version, h.members, h.pending, h.lastChange⟩⟩

theorem inverts_read : Topology.read.Inverts write Fits := by
  intro t fits rest
  simp [read, write, inverts_readNat64 t.version fits.version,
    inverts_readBool t.initialized trivial,
    inverts_readMap inverts_readText Member.inverts_read t.members fits.members,
    inverts_readOption PendingChange.inverts_read t.pending fits.pending,
    inverts_readOption EndedChange.inverts_read t.lastChange fits.lastChange]

theorem stable_read : Topology.read.Stable :=
  stable_readNat64.bind fun version => stable_readBool.bind fun initialized =>
    (stable_readMap stable_readText Member.stable_read).bind fun members =>
      (stable_readOption PendingChange.stable_read).bind fun pending =>
        (stable_readOption EndedChange.stable_read).map
          (Topology.mk version initialized members pending)

end Topology

end ReplicaCluster
