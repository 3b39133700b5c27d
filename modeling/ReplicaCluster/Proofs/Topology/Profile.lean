import ReplicaCluster.Proofs.Topology.Hosting

/-!
# The cluster topology — up to the versions of its members

The version of a member counts its changes, so it tells how often an interrupted operation was
taken up again.  All else that there is to know of the members of a topology is its profile.  Two
topologies have the same profile if they agree in the two views (`Topology.profile_eq_iff`).
-/

namespace ReplicaCluster

/-- A member without its version. -/
def Member.unversioned (m : Member) : Member := { m with version := 0 }

namespace Topology

variable {t t' t'' : Topology}

/-- The members of a topology without their versions. -/
def profile (t : Topology) : SortedMap MemberId Member := t.members.map fun _ m => m.unversioned

/-- The two topologies have the same members, with the same statuses and the same replicas. -/
structure Alike (t t' : Topology) : Prop where
  status? : ∀ id, t.status? id = t'.status? id
  replica? : ∀ id p, t.replica? id p = t'.replica? id p

namespace Alike

theorem refl (t : Topology) : t.Alike t := ⟨fun _ => rfl, fun _ _ => rfl⟩

theorem symm (h : t.Alike t') : t'.Alike t :=
  ⟨fun id => (h.status? id).symm, fun id p => (h.replica? id p).symm⟩

theorem trans (h : t.Alike t') (h' : t'.Alike t'') : t.Alike t'' :=
  ⟨fun id => (h.status? id).trans (h'.status? id),
    fun id p => (h.replica? id p).trans (h'.replica? id p)⟩

theorem of_members (h : t.members = t'.members) : t.Alike t' :=
  ⟨fun _ => status?_congr h, fun _ _ => replica?_congr h⟩

theorem replicas (h : t.Alike t') (p : PartitionId) : t.replicas p = t'.replicas p := by
  refine Std.ExtTreeMap.ext_getElem? fun id => ?_
  simpa [getElem?_replicas, Topology.replica?] using h.replica? id p

theorem priorities (h : t.Alike t') (p : PartitionId) : t.priorities p = t'.priorities p := by
  simp only [Topology.priorities, h.replicas]

theorem replicaCount (h : t.Alike t') (p : PartitionId) : t.replicaCount p = t'.replicaCount p :=
  replicaCount_congr fun id => by simp only [h.replica?]

end Alike

theorem getElem?_profile (id : MemberId) :
    t.profile[id]? = (t.member? id).map Member.unversioned :=
  Std.ExtTreeMap.getElem?_map

theorem profile_eq_iff : t.profile = t'.profile ↔ t.Alike t' := by
  constructor
  · intro h
    have hmember : ∀ id, (t.member? id).map Member.unversioned =
        (t'.member? id).map Member.unversioned := by
      intro id
      simpa only [getElem?_profile] using congrArg (fun m => m[id]?) h
    -- Both views look at members whose versions were dropped as at the members themselves.
    refine ⟨fun id => ?_, fun id p => ?_⟩
    · have hstatus := congrArg (Option.map Member.status) (hmember id)
      simpa [status?, Function.comp_def, Member.unversioned] using hstatus
    · have hreplica := congrArg (fun m => m.bind (·.replica? p)) (hmember id)
      simpa [replica?, Option.bind_map, Function.comp_def, Member.unversioned, Member.replica?]
        using hreplica
  · intro h
    refine Std.ExtTreeMap.ext_getElem? fun id => ?_
    have hstatus := h.status? id
    have hreplica := h.replica? id
    rw [getElem?_profile, getElem?_profile]
    cases hm : t.member? id with
    | none =>
        cases hm' : t'.member? id with
        | none => rfl
        | some m' => simp [status?, hm, hm'] at hstatus
    | some m =>
        cases hm' : t'.member? id with
        | none => simp [status?, hm, hm'] at hstatus
        | some m' =>
            have hreplicas : m.replicas = m'.replicas :=
              Std.ExtTreeMap.ext_getElem? fun p => by
                simpa [replica?, hm, hm', Member.replica?] using hreplica p
            have hstatuses : m.status = m'.status := by simpa [status?, hm, hm'] using hstatus
            simp [Member.unversioned, hreplicas, hstatuses]

/-! ## All of a topology but its versions -/

/-- A topology without its version and those of its members. -/
def unversioned (t : Topology) : Topology := { t with version := 0, members := t.profile }

theorem unversioned_eq_iff :
    t.unversioned = t'.unversioned ↔ t.initialized = t'.initialized ∧ t.Alike t' ∧
      t.pending = t'.pending ∧ t.lastChange = t'.lastChange := by
  simp [unversioned, profile_eq_iff]

end Topology

end ReplicaCluster
