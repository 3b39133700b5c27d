import Mathlib.Data.List.Perm.Subperm
import ReplicaCluster.Planning.Recovery
import ReplicaCluster.Proofs.Execution.Readiness
import ReplicaCluster.Proofs.Topology.Placement

/-!
# What a recovery drops

A recovery takes the members that it names out of the topology, and nothing else.  It can be planned
if it names some members, but not all of them (`Recovery.exists_plan_iff`).  It declares all hosts
that a partition has left its owners, and the last of them starts it (`Recovery.operations_eq`).  A
partition is lost if all of its hosts are named.
-/

namespace ReplicaCluster

namespace Topology

theorem member?_foldl_removeMember (id : MemberId) (removed : List MemberId) :
    ∀ t : Topology, (removed.foldl removeMember t).member? id =
      if id ∈ removed then none else t.member? id := by
  induction removed with
  | nil =>
      intro t
      simp
  | cons first rest ih =>
      intro t
      rw [List.foldl_cons, ih, member?_removeMember]
      by_cases hrest : id ∈ rest
      · simp [hrest]
      · by_cases hfirst : first = id
        · simp [hrest, hfirst]
        · simp [hrest, hfirst, Ne.symm hfirst]

/-- Taking members out touches nothing but the members and the version. -/
theorem foldl_removeMember_ledger (removed : List MemberId) :
    ∀ t : Topology, (removed.foldl removeMember t).pending = t.pending ∧
      (removed.foldl removeMember t).lastChange = t.lastChange := by
  induction removed with
  | nil =>
      intro t
      exact ⟨rfl, rfl⟩
  | cons first rest ih =>
      intro t
      exact ih (t.removeMember first)

end Topology

namespace Recovery

open ReplicaCluster.Topology

variable {members hosts : List MemberId} {t : Topology} {r : Recovery} {op : Operation}
  {id : MemberId} {p : PartitionId}

theorem exists_of_mem_declareOwners (h : op ∈ declareOwners p hosts) :
    ∃ host bootstrap, host ∈ hosts ∧ op = ⟨host, .forceReconfigure p bootstrap⟩ := by
  fun_induction declareOwners p hosts with
  | case1 => cases h
  | case2 last => exact ⟨last, true, List.mem_cons_self, List.mem_singleton.1 h⟩
  | case3 host rest _ ih =>
      rcases List.mem_cons.1 h with rfl | hrest
      · exact ⟨host, false, List.mem_cons_self, rfl⟩
      · rcases ih hrest with ⟨owner, bootstrap, howner, rfl⟩
        exact ⟨owner, bootstrap, List.mem_cons_of_mem _ howner, rfl⟩

theorem plan_eq_ok (h : plan members t = .ok r) :
    ∃ removed : List MemberId, (∀ id, id ∈ removed ↔ id ∈ members ∧ t.hasMember id) ∧
      r.topology = removed.foldl removeMember t ∧
      r.operations =
        t.partitions.flatMap (fun p => declareOwners p (r.topology.replicas p).keys) ∧
      r.lost = t.partitions.filter fun p => (r.topology.replicas p).keys.isEmpty := by
  simp only [plan] at h
  split at h
  · simp at h
  · split at h
    · simp at h
    · cases h
      exact ⟨_, fun id => by simp [mem_sortDistinct], rfl, rfl, rfl⟩

theorem member?_plan (h : plan members t = .ok r) (id : MemberId) :
    r.topology.member? id = if id ∈ members then none else t.member? id := by
  rcases plan_eq_ok h with ⟨removed, hremoved, htopology, -⟩
  rw [htopology, member?_foldl_removeMember]
  simp only [hremoved]
  by_cases hmember : t.hasMember id
  · simp [hmember]
  · -- A member that is not known is not missed.
    have habsent : t.member? id = none := by simpa [hasMember_eq_isSome, status?] using hmember
    simp [habsent]

theorem replica?_plan (h : plan members t = .ok r) (id : MemberId) (p : PartitionId) :
    r.topology.replica? id p = if id ∈ members then none else t.replica? id p := by
  unfold replica?
  rw [member?_plan h]
  split
  · rfl
  · rfl

theorem pending_plan (h : plan members t = .ok r) :
    r.topology.pending = t.pending ∧ r.topology.lastChange = t.lastChange := by
  rcases plan_eq_ok h with ⟨removed, -, htopology, -⟩
  rw [htopology]
  exact foldl_removeMember_ledger removed t

theorem exists_of_mem_operations (h : plan members t = .ok r) (hop : op ∈ r.operations) :
    ∃ host q bootstrap, op = ⟨host, .forceReconfigure q bootstrap⟩ := by
  rcases plan_eq_ok h with ⟨-, -, -, hoperations, -⟩
  rw [hoperations] at hop
  rcases List.mem_flatMap.1 hop with ⟨q, -, howner⟩
  rcases exists_of_mem_declareOwners howner with ⟨host, bootstrap, -, rfl⟩
  exact ⟨host, q, bootstrap, rfl⟩

theorem mem_lost_iff (h : plan members t = .ok r) :
    p ∈ r.lost ↔ p ∈ t.partitions ∧ ∀ id, (t.replica? id p).isSome → id ∈ members := by
  rcases plan_eq_ok h with ⟨-, -, -, -, hlost⟩
  have hempty : (r.topology.replicas p).keys.isEmpty = true ↔
      ∀ id, r.topology.replica? id p = none := by
    rw [List.isEmpty_iff, List.eq_nil_iff_forall_not_mem]
    refine forall_congr' fun id => ?_
    simp [Std.ExtTreeMap.mem_iff_isSome_getElem?, getElem?_replicas, replica?]
  rw [hlost, List.mem_filter, hempty]
  refine and_congr_right fun _ => forall_congr' fun id => ?_
  rw [replica?_plan h]
  by_cases hid : id ∈ members
  · simp [hid]
  · simp [hid]

/-! ## Plans that exist -/

theorem nodup_removed (members : List MemberId) (t : Topology) :
    ((sortDistinct members).filter t.hasMember).Nodup :=
  (nodup_sortDistinct members).filter _

theorem mem_keys_members_iff : id ∈ t.members.keys ↔ t.hasMember id := by
  rw [Std.ExtTreeMap.mem_keys, Std.ExtTreeMap.mem_iff_contains, hasMember]

/-- As many members are removed as there are just if all of them are named. -/
theorem length_removed_eq_iff :
    ((sortDistinct members).filter t.hasMember).length = t.members.size ↔
      ∀ id, t.hasMember id → id ∈ members := by
  have hsubset : (sortDistinct members).filter t.hasMember ⊆ t.members.keys := by
    intro id hid
    exact mem_keys_members_iff.2 (List.mem_filter.1 hid).2
  have hsubperm := (nodup_removed members t).subperm hsubset
  rw [← Std.ExtTreeMap.length_keys]
  constructor
  · intro hlength id hid
    have hperm := hsubperm.perm_of_length_le hlength.ge
    have hremoved := hperm.mem_iff.2 (mem_keys_members_iff.2 hid)
    exact mem_sortDistinct.1 (List.mem_filter.1 hremoved).1
  · intro hall
    refine le_antisymm hsubperm.length_le (Std.ExtTreeMap.nodup_keys.subperm ?_).length_le
    intro id hid
    have hknown := mem_keys_members_iff.1 hid
    exact List.mem_filter.2 ⟨mem_sortDistinct.2 (hall id hknown), hknown⟩

theorem removed_eq_nil_iff :
    (sortDistinct members).filter t.hasMember = [] ↔ ∀ id ∈ members, t.hasMember id = false := by
  simp [List.filter_eq_nil_iff, mem_sortDistinct]

/-- A recovery needs a member to drop and one to keep. -/
theorem exists_plan_iff : (∃ r, plan members t = .ok r) ↔
    (∃ id ∈ members, t.hasMember id) ∧ ∃ id, t.hasMember id ∧ id ∉ members := by
  by_cases hnone : (sortDistinct members).filter t.hasMember = []
  · have hunknown := removed_eq_nil_iff.1 hnone
    simp only [plan, hnone, List.isEmpty_nil, if_true, refuse_ne_ok, exists_false, false_iff]
    rintro ⟨⟨id, hid, hknown⟩, -⟩
    rw [hunknown id hid] at hknown
    cases hknown
  · have hnamed : ∃ id ∈ members, t.hasMember id := by
      simpa using mt removed_eq_nil_iff.2 hnone
    by_cases hall : ((sortDistinct members).filter t.hasMember).length = t.members.size
    · have heveryone := length_removed_eq_iff.1 hall
      simp only [plan, List.isEmpty_iff, hnone, if_false, hall, if_true, refuse_ne_ok, exists_false,
        false_iff]
      rintro ⟨-, id, hknown, hkept⟩
      exact hkept (heveryone id hknown)
    · have hkept : ∃ id, t.hasMember id ∧ id ∉ members := by
        simpa using mt length_removed_eq_iff.2 hall
      simp only [plan, List.isEmpty_iff, hnone, if_false, hall, Except.ok.injEq, exists_eq', hnamed,
        hkept, and_self]

theorem invalidRequest_of_plan {e : Failure} (h : plan members t = .error e) :
    e.kind = .invalidRequest := by
  simp only [plan] at h
  split at h
  · cases h
    rfl
  · split at h
    · cases h
      rfl
    · cases h

/-! ## Owners -/

theorem declareOwners_eq_mapIdx (p : PartitionId) (hosts : List MemberId) :
    declareOwners p hosts =
      hosts.mapIdx fun i host => ⟨host, .forceReconfigure p (i + 1 = hosts.length)⟩ := by
  fun_induction declareOwners p hosts with
  | case1 => rfl
  | case2 last => rfl
  | case3 host rest more ih =>
      have hmore : rest.length ≠ 0 := by simpa using more
      simp [ih, List.mapIdx_cons, Ne.symm hmore]

end Recovery

namespace Topology

variable {t : Topology} {dropped : List MemberId} {id : MemberId} {p : PartitionId}

/-- The hosts of a partition that are not dropped, in the order of their names. -/
def survivors (t : Topology) (dropped : List MemberId) (p : PartitionId) : List MemberId :=
  (t.replicas p).keys.filter fun id => !dropped.contains id

theorem mem_survivors_iff :
    id ∈ t.survivors dropped p ↔ (t.replica? id p).isSome ∧ id ∉ dropped := by
  simp [survivors, Std.ExtTreeMap.mem_iff_isSome_getElem?, getElem?_replicas, replica?]

end Topology

namespace Recovery

open ReplicaCluster.Topology

variable {members : List MemberId} {t : Topology} {r : Recovery} {p : PartitionId}

theorem keys_replicas_plan (h : plan members t = .ok r) (p : PartitionId) :
    (r.topology.replicas p).keys = t.survivors members p := by
  have hfilter : r.topology.replicas p =
      (t.replicas p).filter fun id _ => !members.contains id := by
    refine Std.ExtTreeMap.ext_getElem? fun id => ?_
    rw [getElem?_replicas, member?_plan h, Std.ExtTreeMap.getElem?_filter', getElem?_replicas]
    by_cases hid : id ∈ members
    · simp [hid]
    · cases t.member? id with
      | none => simp [hid]
      | some m => cases hr : m.replica? p <;> simp [hid, hr, Option.filter_some]
  rw [hfilter, survivors, ← Std.ExtTreeMap.map_fst_toList_eq_keys, Std.ExtTreeMap.toList_filter,
    ← Std.ExtTreeMap.map_fst_toList_eq_keys, List.filter_map]
  rfl

/-- Each partition is given to all the hosts that it has left, the last of which starts it. -/
theorem operations_eq (h : plan members t = .ok r) :
    r.operations = t.partitions.flatMap fun p =>
      (t.survivors members p).mapIdx fun i host =>
        ⟨host, .forceReconfigure p (i + 1 = (t.survivors members p).length)⟩ := by
  rcases plan_eq_ok h with ⟨-, -, -, hoperations, -⟩
  simp only [hoperations, keys_replicas_plan h, declareOwners_eq_mapIdx]

theorem lost_eq (h : plan members t = .ok r) :
    r.lost = t.partitions.filter fun p => (t.survivors members p).isEmpty := by
  rcases plan_eq_ok h with ⟨-, -, -, -, hlost⟩
  simp only [hlost, keys_replicas_plan h]

end Recovery

end ReplicaCluster
