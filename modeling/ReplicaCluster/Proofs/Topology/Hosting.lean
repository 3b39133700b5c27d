import Mathlib.Data.Finset.Card
import ReplicaCluster.Topology.Bootstrap
import ReplicaCluster.Topology.Lemmas
import ReplicaCluster.Topology.Update

/-!
# The cluster topology — hosting, member by member

What laws on replicas need to know of a topology are the status of a member and its replica of a
partition.  This module defines these two views, counts the replicas of a partition through them,
and says how a revision of one member changes them.
-/

namespace ReplicaCluster

/-! ## Listings of maps -/

namespace SortedMap

variable {κ α : Type} [Ord κ] [Std.TransOrd κ]

theorem values_eq_map_toList (m : SortedMap κ α) : m.values = m.toList.map (·.2) := by
  -- `values` is the fold of the tree, which the library relates to `toList`.
  have hfold : m.values = m.foldr (fun _ v l => v :: l) [] := by
    rcases m with ⟨⟨m⟩⟩
    induction m using Quotient.inductionOn with
    | h m => rfl
  rw [hfold, Std.ExtTreeMap.foldr_eq_foldr_toList]
  induction m.toList with
  | nil => rfl
  | cons e rest ih => simp [ih]

theorem mem_values_iff [Std.LawfulEqOrd κ] {m : SortedMap κ α} {v : α} :
    v ∈ m.values ↔ ∃ k : κ, m[k]? = some v := by
  simp [values_eq_map_toList]

theorem mem_iff_exists {m : SortedMap κ α} {k : κ} : k ∈ m ↔ ∃ v, m[k]? = some v := by
  rw [Std.ExtTreeMap.mem_iff_isSome_getElem?, Option.isSome_iff_exists]

theorem contains_eq_false_iff {m : SortedMap κ α} {k : κ} : m.contains k = false ↔ k ∉ m := by
  rw [Std.ExtTreeMap.mem_iff_contains, Bool.not_eq_true]

end SortedMap

section SortDistinct

variable {κ : Type} [Ord κ] [Std.TransOrd κ] [Std.LawfulEqOrd κ] [BEq κ] [LawfulBEq κ]

theorem mem_sortDistinct {xs : List κ} {x : κ} : x ∈ sortDistinct xs ↔ x ∈ xs := by
  simp [sortDistinct, Std.ExtTreeSet.mem_ofList]

theorem sortDistinct_congr {xs ys : List κ} (h : ∀ x, x ∈ xs ↔ x ∈ ys) :
    sortDistinct xs = sortDistinct ys := by
  have hset : Std.ExtTreeSet.ofList xs compare = Std.ExtTreeSet.ofList ys compare := by
    refine Std.ExtTreeSet.ext_mem fun x => ?_
    simpa [Std.ExtTreeSet.mem_ofList] using h x
  simp only [sortDistinct, hset]

end SortDistinct

/-! ## Members -/

namespace Member

variable (m : Member) (p q : PartitionId)

@[simp] theorem status_withStatus (s : Status) : (m.withStatus s).status = s := rfl

@[simp] theorem replica?_withStatus (s : Status) :
    (m.withStatus s).replica? p = m.replica? p := rfl

@[simp] theorem status_withReplica (r : Replica) : (m.withReplica q r).status = m.status := rfl

@[simp] theorem replica?_withReplica (r : Replica) :
    (m.withReplica q r).replica? p = if q = p then some r else m.replica? p := by
  simp [withReplica, replica?, Std.ExtTreeMap.getElem?_insert]

@[simp] theorem status_modifyReplica (f : Replica → Replica) :
    (m.modifyReplica q f).status = m.status := by
  unfold modifyReplica
  split <;> rfl

@[simp] theorem replica?_modifyReplica (f : Replica → Replica) :
    (m.modifyReplica q f).replica? p = if q = p then (m.replica? p).map f else m.replica? p := by
  unfold modifyReplica
  cases h : m.replica? q with
  | some r =>
      by_cases hq : q = p
      · subst hq; simp [h]
      · simp [hq]
  | none =>
      by_cases hq : q = p
      · subst hq; simp [h]
      · simp [hq]

@[simp] theorem status_withoutReplica : (m.withoutReplica q).status = m.status := by
  unfold withoutReplica
  split <;> rfl

theorem hosts_eq_isSome : m.hosts p = (m.replica? p).isSome :=
  Std.ExtTreeMap.contains_eq_isSome_getElem?

@[simp] theorem replica?_withoutReplica :
    (m.withoutReplica q).replica? p = if q = p then none else m.replica? p := by
  unfold withoutReplica
  by_cases h : m.hosts q
  · simp [h, replica?, Std.ExtTreeMap.getElem?_erase]
  · have hnone : m.replica? q = none := by simpa [hosts_eq_isSome] using h
    by_cases hq : q = p
    · subst hq
      simp [h, hnone]
    · simp [h, hq]

@[simp] theorem status_overwriteReplica (r : Option Priority) :
    (m.overwriteReplica q r).status = m.status := by
  cases r <;> simp [overwriteReplica]

@[simp] theorem replica?_overwriteReplica (r : Option Priority) :
    (m.overwriteReplica q r).replica? p =
      if q = p then r.map Replica.active else m.replica? p := by
  cases r <;> simp [overwriteReplica]

theorem replicas_isEmpty_iff : m.replicas.isEmpty ↔ ∀ p, m.replica? p = none := by
  rw [Std.ExtTreeMap.isEmpty_iff]
  constructor
  · intro h p
    simp [replica?, h]
  · intro h
    exact Std.ExtTreeMap.ext_getElem? fun p => by simpa [replica?] using h p

end Member

namespace Topology

/-! ## The two views -/

def status? (t : Topology) (id : MemberId) : Option Status := (t.member? id).map (·.status)

/-- The replica of a partition on a member, if the member hosts it. -/
def replica? (t : Topology) (id : MemberId) (p : PartitionId) : Option Replica :=
  (t.member? id).bind (·.replica? p)

variable {t t' : Topology} {id other : MemberId} {p q : PartitionId}

theorem hasMember_eq_isSome : t.hasMember id = (t.status? id).isSome := by
  rw [hasMember, Std.ExtTreeMap.contains_eq_isSome_getElem?, status?, Option.isSome_map, member?]

theorem replica?_eq_none_of_absent (h : t.status? id = none) : t.replica? id p = none := by
  have hm : t.member? id = none := by simpa [status?] using h
  simp [replica?, hm]

theorem member?_congr (h : t.members = t'.members) : t.member? id = t'.member? id := by
  simp only [member?, h]

theorem status?_congr (h : t.members = t'.members) : t.status? id = t'.status? id := by
  simp only [status?, member?, h]

theorem replica?_congr (h : t.members = t'.members) : t.replica? id p = t'.replica? id p := by
  simp only [replica?, member?, h]

theorem status?_updateMember (f : Option Member → Option Member) :
    (t.updateMember id f).status? other =
      if id = other then (f (t.member? id)).map (·.status) else t.status? other := by
  unfold status?
  rw [member?_updateMember]
  split <;> rfl

theorem replica?_updateMember (f : Option Member → Option Member) :
    (t.updateMember id f).replica? other p =
      if id = other then (f (t.member? id)).bind (·.replica? p) else t.replica? other p := by
  unfold replica?
  rw [member?_updateMember]
  split <;> rfl

theorem status?_modifyMember (f : Member → Member) :
    (t.modifyMember id f).status? other =
      if id = other then (t.member? id).map fun m => (f m).status else t.status? other := by
  simp [modifyMember, status?_updateMember, Function.comp_def]

theorem replica?_modifyMember (f : Member → Member) :
    (t.modifyMember id f).replica? other p =
      if id = other then (t.member? id).bind fun m => (f m).replica? p
      else t.replica? other p := by
  simp [modifyMember, replica?_updateMember, Option.bind_map]

theorem status?_overwriteReplicas (priorities : SortedMap MemberId Priority) :
    (t.overwriteReplicas q priorities).status? id = t.status? id := by
  simp [status?, member?_overwriteReplicas, Function.comp_def]

theorem replica?_overwriteReplicas (priorities : SortedMap MemberId Priority) :
    (t.overwriteReplicas q priorities).replica? id p =
      if q = p then (t.member? id).bind fun _ => priorities[id]?.map Replica.active
      else t.replica? id p := by
  unfold replica?
  rw [member?_overwriteReplicas]
  cases t.member? id <;> simp

/-! ## Hosts of a partition -/

def hosts (t : Topology) (p : PartitionId) : Finset MemberId := (t.replicas p).keys.toFinset

theorem mem_hosts_iff : id ∈ t.hosts p ↔ (t.replica? id p).isSome := by
  simp [hosts, Std.ExtTreeMap.mem_iff_isSome_getElem?, getElem?_replicas, replica?]

theorem replicaCount_eq_card_hosts : t.replicaCount p = (t.hosts p).card := by
  -- Both sides count the members that are listed with the partition, each of them once.
  let entries := t.members.toList.filter fun e => e.2.hosts p
  have hcount : t.replicaCount p = (entries.map (·.1)).length := by
    rw [replicaCount, SortedMap.values_eq_map_toList, List.countP_map, List.countP_eq_length_filter,
      List.length_map]
    rfl
  have hsub : (entries.map (·.1)).Sublist t.members.keys := by
    rw [← Std.ExtTreeMap.map_fst_toList_eq_keys]
    exact List.filter_sublist.map _
  have hnodup : (entries.map (·.1)).Nodup := Std.ExtTreeMap.nodup_keys.sublist hsub
  have hset : (entries.map (·.1)).toFinset = t.hosts p := by
    ext id
    rw [mem_hosts_iff, List.mem_toFinset]
    simp only [entries, List.mem_map, List.mem_filter, Prod.exists, exists_and_right,
      exists_eq_right,
      Std.ExtTreeMap.mem_toList_iff_getElem?_eq_some, Member.hosts_eq_isSome, replica?, member?]
    cases t.members[id]? <;> simp
  rw [hcount, ← hset, List.toFinset_card_of_nodup hnodup]

theorem replicaCount_congr (h : ∀ id, (t.replica? id p).isSome = (t'.replica? id p).isSome) :
    t.replicaCount p = t'.replicaCount p := by
  rw [replicaCount_eq_card_hosts, replicaCount_eq_card_hosts]
  congr 1
  ext id
  rw [mem_hosts_iff, mem_hosts_iff, h id]

theorem replicaCount_of_members (h : t.members = t'.members) :
    t.replicaCount p = t'.replicaCount p := by
  simp only [replicaCount, h]

theorem replicaCount_mono (h : ∀ id, (t.replica? id p).isSome → (t'.replica? id p).isSome) :
    t.replicaCount p ≤ t'.replicaCount p := by
  rw [replicaCount_eq_card_hosts, replicaCount_eq_card_hosts]
  refine Finset.card_le_card fun id hid => ?_
  exact mem_hosts_iff.2 (h id (mem_hosts_iff.1 hid))

/-- Where one member at most ceases to host a partition, one replica at most is lost. -/
theorem replicaCount_pred_le (other : MemberId)
    (h : ∀ id, id ≠ other → (t.replica? id p).isSome → (t'.replica? id p).isSome) :
    t.replicaCount p - 1 ≤ t'.replicaCount p := by
  rw [replicaCount_eq_card_hosts, replicaCount_eq_card_hosts]
  -- All hosts but `other` are still there.
  have hsub : (t.hosts p).erase other ⊆ t'.hosts p := by
    intro id hid
    rcases Finset.mem_erase.1 hid with ⟨hne, hhost⟩
    exact mem_hosts_iff.2 (h id hne (mem_hosts_iff.1 hhost))
  exact Finset.pred_card_le_card_erase.trans (Finset.card_le_card hsub)

theorem replicaCount_pos_iff : 0 < t.replicaCount p ↔ ∃ id, (t.replica? id p).isSome := by
  rw [replicaCount_eq_card_hosts, Finset.card_pos]
  exact exists_congr fun id => mem_hosts_iff

/-! ## The partitions of a cluster -/

theorem mem_partitions_iff : p ∈ t.partitions ↔ ∃ id, (t.replica? id p).isSome := by
  simp only [partitions, mem_sortDistinct, List.mem_flatMap, SortedMap.mem_values_iff,
    Std.ExtTreeMap.mem_keys, Std.ExtTreeMap.mem_iff_isSome_getElem?]
  constructor
  · rintro ⟨m, ⟨id, hm⟩, hp⟩
    have hmember : t.member? id = some m := hm
    exact ⟨id, by simpa [replica?, hmember, Member.replica?] using hp⟩
  · rintro ⟨id, hp⟩
    cases hm : t.member? id with
    | none => simp [replica?, hm] at hp
    | some m => exact ⟨m, ⟨id, hm⟩, by simpa [replica?, hm, Member.replica?] using hp⟩

theorem mem_partitions_iff_replicaCount_pos : p ∈ t.partitions ↔ 0 < t.replicaCount p := by
  rw [mem_partitions_iff, replicaCount_pos_iff]

theorem partitions_congr
    (h : ∀ p, (∃ id, (t.replica? id p).isSome) ↔ ∃ id, (t'.replica? id p).isSome) :
    t.partitions = t'.partitions := by
  have hmem : ∀ p, p ∈ t.partitions ↔ p ∈ t'.partitions := fun p => by
    rw [mem_partitions_iff, mem_partitions_iff, h p]
  unfold partitions at hmem ⊢
  exact sortDistinct_congr fun p => by simpa [mem_sortDistinct] using hmem p

/-! ## Priorities -/

theorem getElem?_priorities : (t.priorities p)[id]? = (t.replica? id p).map (·.priority) := by
  simp [priorities, Std.ExtTreeMap.getElem?_map, getElem?_replicas, replica?]

theorem size_priorities : (t.priorities p).size = t.replicaCount p := by
  have hnodup : (t.replicas p).keys.Nodup := Std.ExtTreeMap.nodup_keys
  calc (t.priorities p).size
    _ = (t.replicas p).size := Std.ExtTreeMap.size_map
    _ = (t.replicas p).keys.length := Std.ExtTreeMap.length_keys.symm
    _ = (t.hosts p).card := (List.toFinset_card_of_nodup hnodup).symm
    _ = t.replicaCount p := replicaCount_eq_card_hosts.symm

/-! ## The partitions of a member -/

def hosting (t : Topology) (id : MemberId) : Finset PartitionId :=
  (((t.member? id).map (·.replicas.keys)).getD []).toFinset

theorem mem_hosting_iff : p ∈ t.hosting id ↔ (t.replica? id p).isSome := by
  cases hm : t.member? id with
  | none => simp [hosting, replica?, hm]
  | some m => simp [hosting, replica?, hm, Member.replica?]

theorem card_hosting {m : Member} (h : t.member? id = some m) :
    (t.hosting id).card = m.replicas.size := by
  have hnodup : m.replicas.keys.Nodup := Std.ExtTreeMap.nodup_keys
  simp [hosting, h, List.toFinset_card_of_nodup hnodup]

theorem hosting_congr (h : ∀ p, (t.replica? id p).isSome = (t'.replica? id p).isSome) :
    t.hosting id = t'.hosting id := by
  ext p
  rw [mem_hosting_iff, mem_hosting_iff, h p]

end Topology

end ReplicaCluster
