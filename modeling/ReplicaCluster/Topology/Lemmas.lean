import ReplicaCluster.Topology

/-!
# The cluster topology — members through its revisions

What each revision does to the state of every member.  All of them raise the version by one.
-/

namespace ReplicaCluster

namespace Topology

@[simp] theorem version_updateMember (t : Topology) (id : MemberId)
    (f : Option Member → Option Member) : (t.updateMember id f).version = t.version + 1 := rfl

@[simp] theorem version_overwriteReplicas (t : Topology) (partition : PartitionId)
    (priorities : SortedMap MemberId Priority) :
    (t.overwriteReplicas partition priorities).version = t.version + 1 := rfl

theorem member?_updateMember (t : Topology) (id other : MemberId)
    (f : Option Member → Option Member) :
    (t.updateMember id f).member? other =
      if id = other then f (t.member? id) else t.member? other := by
  simp [updateMember, member?, Std.ExtTreeMap.getElem?_alter]

theorem member?_addMember (t : Topology) (id other : MemberId) (m : Member) :
    (t.addMember id m).member? other = if id = other then some m else t.member? other :=
  member?_updateMember t id other _

theorem member?_removeMember (t : Topology) (id other : MemberId) :
    (t.removeMember id).member? other = if id = other then none else t.member? other :=
  member?_updateMember t id other _

/-- An overwriting asks every member whether it is among the new hosts. -/
theorem member?_overwriteReplicas (t : Topology) (partition : PartitionId)
    (priorities : SortedMap MemberId Priority) (id : MemberId) :
    (t.overwriteReplicas partition priorities).member? id =
      (t.member? id).map (·.overwriteReplica partition priorities[id]?) :=
  Std.ExtTreeMap.getElem?_map

/-- The replicas of a partition are what its hosts say. -/
theorem getElem?_replicas (t : Topology) (partition : PartitionId) (id : MemberId) :
    (t.replicas partition)[id]? = (t.member? id).bind (·.replica? partition) :=
  Std.ExtTreeMap.getElem?_filterMap'

end Topology

end ReplicaCluster
