import ReplicaCluster.Proofs.Placement.Settled
import ReplicaCluster.Proofs.Planning.Resettlement

/-!
# Plans that change nothing

The moves from a placement to itself are none, and there are some to any other placement of the same
partitions (`Planner.moves_eq_nil_iff`).  So reassigning and resizing plan nothing just if the
cluster has the right members already and rebalancing leaves the placement alone
(`Planner.Resettles.plan_eq_nil_iff`).  It does that with every even placement
(`Planner.level_placement_stays`).
-/

namespace ReplicaCluster

/-! ## Regular placements over the same members -/

namespace Placement

variable {x : Placement} {members others : List MemberId} {replicationFactor : Nat}

theorem Regular.congr (h : x.Regular members replicationFactor)
    (same : ∀ m, m ∈ members → m ∈ others) : x.Regular others replicationFactor :=
  ⟨h.numbered, fun p hosts hp m hm => same m (h.subset p hosts hp m hm)⟩

/-- A placement that lists the hosts of each partition by their ranks. -/
theorem regular_ofList (rows : List (PartitionId × List MemberId))
    (distinct : (rows.map (·.1)).Nodup)
    (each : ∀ row ∈ rows, Selection members row.2 ∧ row.2.length = replicationFactor) :
    Regular (.ofList (rows.map fun row => (row.1, Priorities.descending row.2))) members
      replicationFactor := by
  have hkeys : ((rows.map fun row => (row.1, Priorities.descending row.2)).map (·.1)).Nodup := by
    simpa [Function.comp_def] using distinct
  have hrow : ∀ (p : PartitionId) (hosts : Priorities),
      (Std.ExtTreeMap.ofList (rows.map fun row => (row.1, Priorities.descending row.2))
        compare)[p]? = some hosts →
      ∃ row ∈ rows, hosts = .descending row.2 := by
    intro p hosts hp
    rw [SortedMap.getElem?_ofList_iff hkeys] at hp
    rcases List.mem_map.1 hp with ⟨row, hrow, heq⟩
    exact ⟨row, hrow, (Prod.mk.inj heq).2.symm⟩
  refine ⟨fun p hosts hp => ?_, fun p hosts hp m hm => ?_⟩
  · rcases hrow p hosts hp with ⟨row, hmem, rfl⟩
    rcases each row hmem with ⟨hselection, hlength⟩
    exact hlength ▸ Priorities.numbered_descending hselection.nodup
  · rcases hrow p hosts hp with ⟨row, hmem, rfl⟩
    refine (each row hmem).1.subset m (Priorities.isSome_descending.1 ?_)
    exact Std.ExtTreeMap.mem_iff_isSome_getElem?.1 hm

end Placement

namespace Planner

open ReplicaCluster.Topology

variable {t : Topology} {current target : Placement} {members ids : List MemberId}
  {replicationFactor : Nat} {planner : Planner}

/-! ## No moves -/

theorem not_move_self {m : MemberId} {p : PartitionId} {priority : Option Priority}
    {op : Operation} : ¬ Move m p priority priority op := by
  intro h
  cases h with
  | promote changes => exact changes rfl

theorem moves_eq_nil_iff (partitions : ∀ p, p ∈ target ↔ p ∈ current) :
    moves current target = [] ↔ target = current := by
  constructor
  · -- Where the priorities of a replica differ, there is a move.
    intro hnone
    have hsame : ∀ p ∈ target, ∀ m, current.priority? p m = target.priority? p m := by
      intro p hp m
      by_contra hdiffer
      rcases exists_move m p hdiffer with ⟨op, hmove⟩
      have hop : op ∈ moves current target := mem_moves_iff.2 ⟨p, m, hp, hmove⟩
      simp [hnone] at hop
    refine Std.ExtTreeMap.ext_getElem? fun p => ?_
    by_cases hp : p ∈ target
    · rcases SortedMap.mem_iff_exists.1 hp with ⟨hosts, hhosts⟩
      rcases SortedMap.mem_iff_exists.1 ((partitions p).1 hp) with ⟨present, hpresent⟩
      rw [hhosts, hpresent, Option.some.injEq]
      refine Std.ExtTreeMap.ext_getElem? fun m => ?_
      have hm := hsame p hp m
      rwa [Placement.priority?_of_getElem? hhosts, Placement.priority?_of_getElem? hpresent,
        eq_comm] at hm
    · rw [Std.ExtTreeMap.getElem?_eq_none hp,
        Std.ExtTreeMap.getElem?_eq_none fun h => hp ((partitions p).2 h)]
  · rintro rfl
    refine List.eq_nil_iff_forall_not_mem.2 fun op hop => ?_
    rcases mem_moves_iff.1 hop with ⟨p, m, -, hmove⟩
    exact not_move_self hmove

/-- Where the members are those that the cluster is to have, there is nothing to do just if
rebalancing leaves the placement alone. -/
theorem Resettles.plan_eq_nil_iff (h : Resettles t members replicationFactor planner ids)
    (positive : 1 ≤ replicationFactor)
    (enough : replicationFactor ≤ (sortDistinct members).length)
    (same : ∀ id, id ∈ ids ↔ t.hasMember id) :
    planner t = .ok [] ↔
      t.placement.rebalance (sortDistinct members) replicationFactor = t.placement := by
  have hdistinct : (sortDistinct members).Nodup := nodup_sortDistinct members
  have hnonempty : sortDistinct members ≠ [] := List.ne_nil_of_length_pos (by omega)
  rcases h.plan positive enough with ⟨unwanted, -, hdropped, hids, hplan⟩
  have hunwanted : unwanted = [] := by
    refine List.eq_nil_iff_forall_not_mem.2 fun id hid => ?_
    exact ((hids id).1 ((same id).2 (hdropped id hid).1)).1 hid
  have hnew : newcomers t (sortDistinct members) = [] := by
    refine List.eq_nil_iff_forall_not_mem.2 fun id hid => ?_
    rcases mem_newcomers_iff.1 hid with ⟨hdesired, hunknown⟩
    have hknown := (same id).1 ((hids id).2 ⟨by simp [hunwanted], Or.inr hdesired⟩)
    rw [hunknown] at hknown
    cases hknown
  have hdedup : replicationFactor ≤ (sortDistinct members).dedup.length := by
    rwa [hdistinct.dedup]
  have hselects := t.placement.rebalance_selects hnonempty hdedup
  rw [hplan, resettlement, hunwanted, hnew, ← moves_eq_nil_iff hselects.1]
  simp

theorem rebalance_eq_self_of_level (distinct : members.Nodup) (positive : 1 ≤ replicationFactor)
    (enough : replicationFactor ≤ members.length)
    (regular : current.Regular members replicationFactor)
    (level : ∀ a ∈ members, ∀ b ∈ members,
      (current.hostedBy a).length ≤ (current.hostedBy b).length + 1) :
    current.rebalance members replicationFactor = current := by
  have hnonempty : members ≠ [] := List.ne_nil_of_length_pos (by omega)
  rw [Placement.rebalance_eq_self_iff regular hnonempty (by rwa [distinct.dedup])]
  exact Placement.settled_of_level regular distinct hnonempty level

/-- Rebalancing leaves a placement alone in which every partition has its hosts on the members with
consecutive priorities, and the loads of any two members differ by one at most.  So nothing is
planned to reassign the partitions to these members, or to resize a cluster to them that consists of
them already. -/
theorem level_placement_stays (current : Placement) (members : List MemberId)
    (replicationFactor : Nat) (distinct : members.Nodup) (positive : 1 ≤ replicationFactor)
    (enough : replicationFactor ≤ members.length)
    (regular : current.Regular members replicationFactor)
    (level : ∀ a ∈ members, ∀ b ∈ members,
      (current.hostedBy a).length ≤ (current.hostedBy b).length + 1) :
    current.rebalance members replicationFactor = current ∧
      ∀ t : Topology, t.placement = current →
        ((∀ m ∈ members, t.hasMember m) → reassign members replicationFactor t = .ok []) ∧
        ((∀ m, t.hasMember m ↔ m ∈ members) → scale members replicationFactor t = .ok []) := by
  refine ⟨rebalance_eq_self_of_level distinct positive enough regular level, ?_⟩
  rintro t rfl
  -- The planners take the members in the order of their names.
  have hperm : (sortDistinct members).Perm members :=
    (List.perm_ext_iff_of_nodup (nodup_sortDistinct members) distinct).2 fun _ => mem_sortDistinct
  have henough : replicationFactor ≤ (sortDistinct members).length := by rwa [hperm.length_eq]
  have hstays : t.placement.rebalance (sortDistinct members) replicationFactor = t.placement :=
    rebalance_eq_self_of_level (nodup_sortDistinct members) positive henough
      (regular.congr fun _ => mem_sortDistinct.2)
      fun a ha b hb => level a (mem_sortDistinct.1 ha) b (mem_sortDistinct.1 hb)
  refine ⟨fun hknown => ?_, fun hcluster => ?_⟩
  · refine ((Resettles.reassign hknown).plan_eq_nil_iff positive henough fun id => ?_).2 hstays
    rw [Std.ExtTreeMap.mem_keys, Std.ExtTreeMap.mem_iff_contains, hasMember]
  · exact (Resettles.scale.plan_eq_nil_iff positive henough fun id => (hcluster id).symm).2 hstays

/-- One of three members hosts both partitions, which is one more than the fair share. -/
theorem level_placement_stays_uneven_share :
    let rows : List (PartitionId × List MemberId) := [(1, ["a", "b"]), (2, ["c", "a"])]
    let current : Placement := .ofList (rows.map fun row => (row.1, Priorities.descending row.2))
    let members := ["c", "a", "b"]
    let t := ((Topology.initial.addMember "a"
        (Member.active (.ofList [(1, Replica.active 2), (2, Replica.active 1)]))).addMember "b"
        (Member.active (.ofList [(1, Replica.active 1)]))).addMember "c"
        (Member.active (.ofList [(2, Replica.active 2)]))
    members.Nodup ∧ 1 ≤ 2 ∧ 2 ≤ members.length ∧ current.Regular members 2 ∧
      (∀ a ∈ members, ∀ b ∈ members,
        (current.hostedBy a).length ≤ (current.hostedBy b).length + 1) ∧
      current.rebalance members 2 = current ∧ t.placement = current ∧
      reassign members 2 t = .ok [] ∧ scale members 2 t = .ok [] := by
  intro rows current members t
  have distinct : members.Nodup := by decide
  have enough : 2 ≤ members.length := by decide
  have regular : current.Regular members 2 := by
    refine Placement.regular_ofList rows (by decide) fun row hrow => ?_
    have hhosts : row.2.Nodup ∧ (∀ m ∈ row.2, m ∈ members) ∧ row.2.length = 2 := by
      revert row
      decide
    exact ⟨⟨hhosts.1, hhosts.2.1⟩, hhosts.2.2⟩
  have level : ∀ a ∈ members, ∀ b ∈ members,
      (current.hostedBy a).length ≤ (current.hostedBy b).length + 1 := by
    decide +kernel
  have hplacement : t.placement = current := by decide +kernel
  rcases level_placement_stays current members 2 distinct (by decide) enough regular level with
    ⟨hstays, hplans⟩
  have hknown : t.members.keys = ["a", "b", "c"] := by decide +kernel
  have hmembers : ∀ m, t.hasMember m ↔ m ∈ members := by
    intro m
    rw [hasMember, ← Std.ExtTreeMap.mem_iff_contains, ← Std.ExtTreeMap.mem_keys, hknown]
    simp only [members, List.mem_cons, List.not_mem_nil, or_false]
    tauto
  rcases hplans t hplacement with ⟨hreassign, hscale⟩
  exact ⟨distinct, by decide, enough, regular, level, hstays, hplacement,
    hreassign fun m hm => (hmembers m).2 hm, hscale hmembers⟩

end Planner

end ReplicaCluster
