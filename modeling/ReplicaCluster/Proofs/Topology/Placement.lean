import ReplicaCluster.Proofs.Topology.Hosting

/-!
# The placement of a topology

A placement is known by the priority that each member has for each partition, if it hosts it.  This
module reads the placement of a topology off its replicas, and shows that the replicas determine it.
-/

namespace ReplicaCluster

section SortDistinct

variable {κ : Type} [Ord κ] [Std.TransOrd κ] [Std.LawfulEqOrd κ]

theorem nodup_sortDistinct (xs : List κ) : (sortDistinct xs).Nodup :=
  (Std.ExtTreeSet.ofList xs compare).distinct_toList.imp fun h heq => h (by simp [heq])

theorem length_sortDistinct [DecidableEq κ] (xs : List κ) :
    (sortDistinct xs).length = xs.dedup.length :=
  ((List.perm_ext_iff_of_nodup (nodup_sortDistinct xs) xs.nodup_dedup).2 fun _ =>
    mem_sortDistinct.trans List.mem_dedup.symm).length_eq

/-- An ascending list is determined by its elements. -/
theorem eq_sortDistinct [BEq κ] [LawfulBEq κ] {xs ys : List κ}
    (ascending : xs.Pairwise fun a b => compare a b = .lt) (h : ∀ x, x ∈ xs ↔ x ∈ ys) :
    xs = sortDistinct ys := by
  have hasymm : ∀ a b : κ, compare a b = .lt → compare b a = .lt → a = b := by
    intro a b hab hba
    have hswap : compare a b = (compare b a).swap := Std.OrientedCmp.eq_swap
    rw [hab, hba] at hswap
    cases hswap
  have hdistinct : xs.Nodup := ascending.imp fun hlt heq => by simp [heq] at hlt
  have hperm : xs.Perm (sortDistinct ys) :=
    (List.perm_ext_iff_of_nodup hdistinct (nodup_sortDistinct ys)).2 fun x =>
      (h x).trans mem_sortDistinct.symm
  exact hperm.eq_of_pairwise (fun a b _ _ => hasymm a b) ascending
    (Std.ExtTreeSet.ofList ys compare).ordered_toList

end SortDistinct

namespace SortedMap

variable {κ α : Type} [Ord κ] [Std.TransOrd κ] [Std.LawfulEqOrd κ] [BEq κ] [LawfulBEq κ]

/-- A map that is made from a list with distinct keys has the entries of the list. -/
theorem getElem?_ofList_iff {l : List (κ × α)} (distinct : (l.map (·.1)).Nodup) {k : κ} {v : α} :
    (Std.ExtTreeMap.ofList l compare)[k]? = some v ↔ (k, v) ∈ l := by
  have hpairwise : l.Pairwise fun a b => ¬ compare a.1 b.1 = .eq := by
    simpa [List.Nodup, List.pairwise_map] using distinct
  have hfound : ∀ w, (k, w) ∈ l → (Std.ExtTreeMap.ofList l compare)[k]? = some w :=
    fun w hw => Std.ExtTreeMap.getElem?_ofList_of_mem Std.ReflCmp.compare_self hpairwise hw
  constructor
  · intro h
    have hmem : k ∈ Std.ExtTreeMap.ofList l compare := by
      simp [Std.ExtTreeMap.mem_iff_isSome_getElem?, h]
    rcases List.mem_map.1 (List.contains_iff_mem.1 (Std.ExtTreeMap.mem_ofList.1 hmem)) with
      ⟨⟨k', w⟩, hw, rfl⟩
    have hvalue : some w = some v := (hfound w hw).symm.trans h
    cases hvalue
    exact hw
  · exact hfound v

/-- A map that is made from a list has no entries but those of the list. -/
theorem mem_of_getElem?_ofList {l : List (κ × α)} {k : κ} {v : α}
    (h : (Std.ExtTreeMap.ofList l compare)[k]? = some v) : (k, v) ∈ l := by
  rw [Std.ExtTreeMap.ofList_eq_insertMany_empty, Std.ExtTreeMap.getElem?_insertMany_list] at h
  have hfound : l.findSomeRev? (fun e => if compare e.1 k = .eq then some e.2 else none) = some v := by
    simpa using h
  rw [List.findSomeRev?_eq_findSome?_reverse] at hfound
  rcases List.exists_of_findSome?_eq_some hfound with ⟨⟨k', w⟩, hmem, hentry⟩
  by_cases hkey : compare k' k = .eq
  · have hvalue : w = v := by simpa [hkey] using hentry
    rw [← Std.LawfulEqCmp.eq_of_compare hkey, ← hvalue]
    exact List.mem_reverse.1 hmem
  · simp [hkey] at hentry

end SortedMap

/-! ## Priorities by partition and member -/

/-- The priority with which a placement has a partition on a member. -/
def Placement.priority? (placement : Placement) (p : PartitionId) (m : MemberId) :
    Option Priority :=
  placement[p]?.bind (·[m]?)

namespace Placement

variable {placement : Placement} {p : PartitionId} {m : MemberId}

theorem priority?_of_getElem? {hosts : Priorities} (h : placement[p]? = some hosts) :
    placement.priority? p m = hosts[m]? := by
  simp [priority?, h]

theorem priority?_of_not_mem (h : p ∉ placement) : placement.priority? p m = none := by
  simp [priority?, Std.ExtTreeMap.getElem?_eq_none h]

theorem getElem?_getD : (placement.getD p ∅)[m]? = placement.priority? p m := by
  unfold priority?
  rw [Std.ExtTreeMap.getD_eq_getD_getElem?]
  cases placement[p]? <;> simp

end Placement

namespace Topology

variable {t : Topology} {id : MemberId} {p : PartitionId}

theorem getElem?_placement :
    t.placement[p]? = if p ∈ t.partitions then some (t.priorities p) else none := by
  have hdistinct : ((t.partitions.map fun p => (p, t.priorities p)).map (·.1)).Nodup := by
    have hpartitions : t.partitions.Nodup := nodup_sortDistinct _
    simpa [Function.comp_def] using hpartitions
  refine Option.ext fun hosts => ?_
  rw [placement, SortedMap.getElem?_ofList_iff hdistinct]
  by_cases hp : p ∈ t.partitions
  · simp [hp, eq_comm]
  · simp [hp]

theorem priority?_placement : t.placement.priority? p id = (t.replica? id p).map (·.priority) := by
  by_cases hp : p ∈ t.partitions
  · simp [Placement.priority?, getElem?_placement, hp, getElem?_priorities]
  · have hnone : t.replica? id p = none := by
      by_contra hsome
      exact hp (mem_partitions_iff.2 ⟨id, Option.isSome_iff_ne_none.2 hsome⟩)
    simp [Placement.priority?, getElem?_placement, hp, hnone]

/-- A topology whose replicas are those of a placement, which leaves no partition without host, has
this placement. -/
theorem placement_eq {target : Placement}
    (hosted : ∀ p ∈ target, ∃ id, (target.priority? p id).isSome)
    (h : ∀ id p, (t.replica? id p).map (·.priority) = target.priority? p id) :
    t.placement = target := by
  have hsome : ∀ id p, (t.replica? id p).isSome = (target.priority? p id).isSome := by
    intro id p
    rw [← h id p, Option.isSome_map]
  refine Std.ExtTreeMap.ext_getElem? fun p => ?_
  rw [getElem?_placement]
  by_cases hp : p ∈ target
  · have hpartition : p ∈ t.partitions := by
      rcases hosted p hp with ⟨id, hid⟩
      exact mem_partitions_iff.2 ⟨id, by rw [hsome]; exact hid⟩
    rcases SortedMap.mem_iff_exists.1 hp with ⟨hosts, hhosts⟩
    have hpriorities : t.priorities p = hosts :=
      Std.ExtTreeMap.ext_getElem? fun id => by
        rw [getElem?_priorities, h, Placement.priority?_of_getElem? hhosts]
    rw [if_pos hpartition, hhosts, hpriorities]
  · have hnowhere : p ∉ t.partitions := by
      intro hpartition
      rcases mem_partitions_iff.1 hpartition with ⟨id, hid⟩
      simp [hsome, Placement.priority?_of_not_mem hp] at hid
    rw [if_neg hnowhere, Std.ExtTreeMap.getElem?_eq_none hp]

end Topology

end ReplicaCluster
