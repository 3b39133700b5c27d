import ReplicaCluster.Proofs.Placement.Rebalance
import ReplicaCluster.Proofs.Planning.Relocation
import ReplicaCluster.Proofs.Topology.Bootstrap

/-!
# Resettling the partitions

Reassigning and resizing both spread the partitions over a list of members.  Their plans have up to
three parts: the members that are missing join, the partitions move, and the members that are not
wanted any more leave.  On a cluster in which everything is active such a plan can be carried out,
if there are enough members, and ends with the placement that rebalancing has computed
(`Planner.exists_replay_resettlement`).
-/

namespace ReplicaCluster

open ReplicaCluster.Topology

/-! ## The way to the target -/

namespace Topology

variable {t : Topology} {id : MemberId} {p : PartitionId}

theorem AllActive.replica?_eq (h : t.AllActive) :
    t.replica? id p = (t.placement.priority? p id).map Replica.active := by
  rw [priority?_placement]
  cases hr : t.replica? id p with
  | none => rfl
  | some r =>
      have hactive : r.status = .active := h.replicas id p r hr
      rcases r with ⟨status, priority⟩
      cases hactive
      rfl

theorem hasMember_of_hosts (h : (t.replica? id p).isSome) : t.hasMember id := by
  rw [hasMember_eq_isSome]
  by_contra habsent
  rw [replica?_eq_none_of_absent (Option.not_isSome_iff_eq_none.1 habsent)] at h
  cases h

end Topology

namespace Planner

variable {settings : Settings} {t : Topology} {desired unwanted : List MemberId} {m : MemberId}
  {p : PartitionId}

/-- The members of a list that the cluster does not have. -/
def newcomers (t : Topology) (desired : List MemberId) : List MemberId :=
  desired.filter fun m => !t.hasMember m

/-- The operations of a resettlement in their three parts. -/
def resettlement (t : Topology) (desired : List MemberId) (replicationFactor : Nat)
    (unwanted : List MemberId) : List Operation :=
  (newcomers t desired).map (⟨·, .joinCluster⟩) ++
    moves t.placement (t.placement.rebalance desired replicationFactor) ++
      unwanted.map (⟨·, .leaveCluster⟩)

theorem mem_newcomers_iff : m ∈ newcomers t desired ↔ m ∈ desired ∧ t.hasMember m = false := by
  simp [newcomers]

theorem unknown_of_mem_newcomers : ∀ m ∈ newcomers t desired, t.status? m = none := fun m hm => by
  simpa [hasMember_eq_isSome] using (mem_newcomers_iff.1 hm).2

/-- The members of before, but with the newcomers and without those that are unwanted. -/
theorem hasMember_iff_of_status {final : Topology}
    (status : ∀ id, final.status? id = if id ∈ unwanted then none
      else if id ∈ newcomers t desired then some .active else t.status? id) :
    final.hasMember m ↔ m ∉ unwanted ∧ (t.hasMember m ∨ m ∈ desired) := by
  rw [hasMember_eq_isSome, status]
  by_cases hunwanted : m ∈ unwanted
  · simp [hunwanted]
  · by_cases hnew : m ∈ newcomers t desired
    · simp [hunwanted, hnew, (mem_newcomers_iff.1 hnew).1]
    · -- A member that is desired but no newcomer is in the cluster already.
      have hdesired : m ∈ desired → t.hasMember m := by
        intro hm
        by_contra hunknown
        exact hnew (mem_newcomers_iff.2 ⟨hm, by simpa using hunknown⟩)
      rw [if_neg hunwanted, if_neg hnew, ← hasMember_eq_isSome]
      exact ⟨fun h => ⟨hunwanted, Or.inl h⟩, fun h => h.2.elim (fun hknown => hknown) hdesired⟩

/-- The topology at the end of a resettlement: the members of before, but with the newcomers and
without those that are unwanted, and on them the replicas of the target. -/
structure Resettled (t : Topology) (desired : List MemberId) (replicationFactor : Nat)
    (unwanted : List MemberId) (final : Topology) : Prop where
  status? : ∀ id, final.status? id = if id ∈ unwanted then none
    else if id ∈ newcomers t desired then some .active else t.status? id
  replica? : ∀ id p, final.replica? id p =
    ((t.placement.rebalance desired replicationFactor).priority? p id).map Replica.active

namespace Resettled

variable {replicationFactor : Nat} {final final' : Topology}

theorem alike (h : Resettled t desired replicationFactor unwanted final)
    (like : final'.Alike final) : Resettled t desired replicationFactor unwanted final' :=
  ⟨fun id => (like.status? id).trans (h.status? id),
    fun id p => (like.replica? id p).trans (h.replica? id p)⟩

theorem allActive (h : Resettled t desired replicationFactor unwanted final)
    (active : t.AllActive) : final.AllActive := by
  refine ⟨fun id s hs => ?_, fun id p r hr => ?_⟩
  · rw [h.status?] at hs
    split at hs
    · cases hs
    · split at hs
      · exact (Option.some.inj hs).symm
      · exact active.members id s hs
  · rw [h.replica?] at hr
    rcases Option.map_eq_some_iff.1 hr with ⟨priority, -, rfl⟩
    rfl

end Resettled

section Target

variable (distinct : desired.Nodup) (positive : 1 ≤ settings.replicationFactor)
  (enough : settings.replicationFactor ≤ desired.length)

include distinct positive enough

/-- Every partition of the target has its chosen hosts, and only desired members are chosen. -/
theorem exists_chosen (hp : p ∈ t.placement.rebalance desired settings.replicationFactor) :
    ∃ chosen, Selection desired chosen ∧ chosen.length = settings.replicationFactor ∧
      ∀ m, ((t.placement.rebalance desired settings.replicationFactor).priority? p m).isSome ↔
        m ∈ chosen := by
  have hnonempty : desired ≠ [] := List.ne_nil_of_length_pos (by omega)
  rcases SortedMap.mem_iff_exists.1 hp with ⟨hosts, hhosts⟩
  rw [← distinct.dedup] at enough
  rcases (t.placement.rebalance_selects hnonempty enough).2 p hosts hhosts with
    ⟨present, chosen, -, rfl, hselection, hlength⟩
  refine ⟨chosen, hselection, hlength, fun m => ?_⟩
  rw [Placement.priority?_of_getElem? hhosts, Placement.isSome_rank]

theorem exists_host (hp : p ∈ t.placement.rebalance desired settings.replicationFactor) :
    ∃ m, ((t.placement.rebalance desired settings.replicationFactor).priority? p m).isSome := by
  rcases exists_chosen distinct positive enough hp with ⟨chosen, -, hlength, hchosen⟩
  rcases List.exists_mem_of_length_pos (l := chosen) (by omega) with ⟨m, hm⟩
  exact ⟨m, (hchosen m).2 hm⟩

theorem Resettled.placement_eq {final : Topology}
    (h : Resettled t desired settings.replicationFactor unwanted final) :
    final.placement = t.placement.rebalance desired settings.replicationFactor := by
  refine Topology.placement_eq (fun p hp => exists_host distinct positive enough hp) fun id p => ?_
  simp [h.replica?, Function.comp_def, Replica.active]

end Target

/-! ## The two planners -/

/-- The planner spreads the partitions over the given members, and the cluster will consist of
`ids`. -/
inductive Resettles (t : Topology) (members : List MemberId) (replicationFactor : Nat) :
    Planner → List MemberId → Prop
  | reassign (known : ∀ m ∈ members, t.hasMember m) :
      Resettles t members replicationFactor (.reassign members replicationFactor) t.members.keys
  | scale : Resettles t members replicationFactor (.scale members replicationFactor) members

theorem Resettles.plan {members ids : List MemberId} {replicationFactor : Nat} {planner : Planner}
    (h : Resettles t members replicationFactor planner ids) (positive : 1 ≤ replicationFactor)
    (enough : replicationFactor ≤ (sortDistinct members).length) :
    ∃ unwanted, unwanted.Nodup ∧
      (∀ id ∈ unwanted, t.hasMember id ∧ id ∉ sortDistinct members) ∧
      (∀ id, id ∈ ids ↔ id ∉ unwanted ∧ (t.hasMember id ∨ id ∈ sortDistinct members)) ∧
      planner t = .ok (resettlement t (sortDistinct members) replicationFactor unwanted) := by
  have hspread : spread (sortDistinct members) replicationFactor t = .ok (moves t.placement
      (t.placement.rebalance (sortDistinct members) replicationFactor)) := by
    simp [spread, Nat.not_lt.2 enough, Nat.one_le_iff_ne_zero.1 positive]
  cases h with
  | reassign known =>
      have hknown : ∀ m ∈ sortDistinct members, t.hasMember m := fun m hm =>
        known m (mem_sortDistinct.1 hm)
      have hnew : newcomers t (sortDistinct members) = [] := by
        simpa [newcomers] using hknown
      refine ⟨[], List.nodup_nil, by simp, fun id => ?_, ?_⟩
      · have hkeys : id ∈ t.members.keys ↔ t.hasMember id := by
          rw [Std.ExtTreeMap.mem_keys, Std.ExtTreeMap.mem_iff_contains, hasMember]
        rw [hkeys]
        simpa using hknown id
      · have hfound : (sortDistinct members).find? (fun m => !t.hasMember m) = none := by
          simpa using hknown
        simp [Planner.reassign, hfound, hspread, resettlement, hnew]
  | scale =>
      refine ⟨t.members.keys.filter fun m => !(sortDistinct members).contains m,
        Std.ExtTreeMap.nodup_keys.filter _, ?_, fun id => ?_, ?_⟩
      · intro id hid
        rcases List.mem_filter.1 hid with ⟨hkey, hundesired⟩
        rw [Std.ExtTreeMap.mem_keys, Std.ExtTreeMap.mem_iff_contains] at hkey
        exact ⟨hkey, by simpa using hundesired⟩
      · simp only [List.mem_filter, Std.ExtTreeMap.mem_keys, Std.ExtTreeMap.mem_iff_contains,
          mem_sortDistinct, hasMember]
        by_cases hid : id ∈ members
        · simp [hid, mem_sortDistinct]
        · simp [hid, mem_sortDistinct]
      · have hnonempty : (sortDistinct members).isEmpty = false := by
          have hpos : (sortDistinct members) ≠ [] := List.ne_nil_of_length_pos (by omega)
          simpa using hpos
        simp [Planner.scale, hnonempty, hspread, resettlement, newcomers, bind, Except.bind, pure,
          Except.pure]

end Planner

end ReplicaCluster
