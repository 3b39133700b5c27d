import ReplicaCluster.Proofs.Placement.Leader
import ReplicaCluster.Proofs.Placement.Priorities
import ReplicaCluster.Proofs.Planning.Growth

/-!
# Leaders when a cluster grows

New replicas rank one below the lowest present one, but the priorities end at 1.  So a newcomer ties
with a leader of priority 1, and leads the partition from then on if its name comes first.  In all
other cases the leader stays (`Planner.leader_kept_iff`).
-/

namespace ReplicaCluster

open ReplicaCluster.Topology

namespace Priorities

variable {present after : Priorities} {m leader : MemberId} {priority : Priority}

/-- New replicas rank below a present one, unless both have the least priority that there is. -/
theorem newcomerPriority_cases (positive : present.Positive) (h : present[m]? = some priority) :
    Planner.newcomerPriority present < priority ∨
      priority = 1 ∧ Planner.newcomerPriority present = 1 := by
  have hvalue : priority ∈ present.values := SortedMap.mem_values_iff.2 ⟨m, h⟩
  have hpositive := positive m priority h
  have hlowest : present.values.min?.getD 1 ≤ priority := by
    cases hmin : present.values.min? with
    | none =>
        rw [List.min?_eq_none_iff.1 hmin] at hvalue
        cases hvalue
    | some lowest => exact (List.min?_eq_some_iff.1 hmin).2 priority hvalue
  have hclamp : ∀ lowest k : Nat, lowest ≤ k → 1 ≤ k →
      max (lowest - 1) 1 < k ∨ k = 1 ∧ max (lowest - 1) 1 = 1 := by omega
  exact hclamp _ _ hlowest hpositive

/-- Where all that is new are newcomers of that priority, the leader stays just if it does not have
the least priority there is or has the least name too. -/
theorem leader?_eq_iff_of_newcomers (positive : present.Positive)
    (hosted : present.leader? = some leader)
    (joined : ∀ m : MemberId, after[m]? = present[m]? ∨
      present[m]? = none ∧ after[m]? = some (Planner.newcomerPriority present)) :
    after.leader? = some leader ↔ (present[leader]? = some 1 →
      ∀ m : MemberId, present[m]? = none → (after[m]?).isSome → leader < m) := by
  rcases leader?_eq_some_iff.1 hosted with ⟨priority, hleader, hbest⟩
  have hstays : after[leader]? = some priority := by
    rcases joined leader with hsame | ⟨hnone, -⟩
    · rw [hsame, hleader]
    · simp [hleader] at hnone
  constructor
  · intro hstill hone m hnew hm
    rcases leader?_eq_some_iff.1 hstill with ⟨k, hk, hstillBest⟩
    have hk' : k = 1 := by
      rw [hleader] at hone
      rw [hstays] at hk
      exact (Option.some.inj hk).symm.trans (Option.some.inj hone)
    rcases joined m with hsame | ⟨-, hnewcomer⟩
    · rw [hsame, hnew] at hm
      cases hm
    · -- Both have the least priority, so the names decide.
      have hleast : Planner.newcomerPriority present = 1 := by
        rcases newcomerPriority_cases positive hone with hbelow | ⟨-, hleast⟩
        · exact absurd hbelow (Nat.not_lt.2 (le_max_right _ 1))
        · exact hleast
      rw [hleast] at hnewcomer
      have hdiffer : leader ≠ m := by
        rintro rfl
        simp [hone] at hnew
      rcases hstillBest m 1 hnewcomer with hlower | ⟨-, hbefore⟩
      · exact absurd hlower (hk' ▸ lt_irrefl _)
      · exact lt_of_le_of_ne hbefore hdiffer
  · intro hfirst
    refine leader?_eq_some_iff.2 ⟨priority, hstays, fun other k hk => ?_⟩
    rcases joined other with hsame | ⟨hnone, hnew⟩
    · exact hbest other k (hsame ▸ hk)
    · have hpriority : k = Planner.newcomerPriority present :=
        Option.some.inj (hk.symm.trans hnew)
      rcases newcomerPriority_cases positive hleader with hbelow | ⟨hone, hleast⟩
      · exact Or.inl (hpriority ▸ hbelow)
      · have hbefore := hfirst (hone ▸ hleader) other hnone (by simp [hnew])
        exact Or.inr ⟨by rw [hpriority, hleast, hone], hbefore.le⟩

end Priorities

namespace Planner

/-- All that a growth does to the priorities of a partition. -/
theorem Growing.priorities_cases {t u : Topology} {new : List MemberId} {replicationFactor : Nat}
    {load : Load} (h : Growing t new replicationFactor [] load u)
    (unknown : ∀ id ∈ new, t.status? id = none) (p : PartitionId) (m : MemberId) :
    (u.priorities p)[m]? = (t.priorities p)[m]? ∨
      (t.priorities p)[m]? = none ∧ p ∈ t.partitions ∧
        (u.priorities p)[m]? = some (newcomerPriority (t.priorities p)) := by
  simp only [getElem?_priorities]
  by_cases hnew : m ∈ new
  · have habsent := replica?_eq_none_of_absent (p := p) (unknown m hnew)
    rcases h.fresh m hnew p with hnone | ⟨hpartition, -, hsome⟩
    · exact Or.inl (by rw [hnone, habsent])
    · exact Or.inr ⟨by simp [habsent], hpartition, by simp [hsome, Replica.active]⟩
  · exact Or.inl (by rw [h.old m hnew])

/-- Adding members to a cluster in whatever state, with no priority below 1, passes all checks.  The
leader of a partition stays just if it has a priority above 1 or its name comes before those of all
members that were added to the partition. -/
theorem leader_kept_iff (settings : Settings) (t : Topology) (members : List MemberId)
    (replicationFactor : Nat) (operations : List Operation)
    (positive : ∀ p, (t.priorities p).Positive)
    (plan : addMembers members replicationFactor t = .ok operations) :
    t.Passes settings operations ∧ ∀ final, Replay settings t operations final → ∀ p,
      ((final.priorities p).leader? = (t.priorities p).leader? ↔
        ∀ leader, (t.priorities p).leader? = some leader → (t.priorities p)[leader]? = some 1 →
          ∀ m, t.replica? m p = none → (final.replica? m p).isSome → leader < m) := by
  rcases exists_growing settings plan with ⟨hpasses, load, hgrown⟩
  refine ⟨hpasses, fun final hreplay p => ?_⟩
  have hfinal := hgrown.alike (alike_performAll_of_replay hreplay)
  have hjoined := hfinal.priorities_cases unknown_of_mem_newcomers p
  cases hleader : (t.priorities p).leader? with
  | none =>
      -- Nobody joins a partition that has no host.
      have hnobody := Priorities.leader?_eq_none_iff.1 hleader
      have hstill : (final.priorities p).leader? = none := by
        refine Priorities.leader?_eq_none_iff.2 fun m => ?_
        rcases hjoined m with hsame | ⟨-, hpartition, -⟩
        · rw [hsame, hnobody m]
        · rcases mem_partitions_iff.1 hpartition with ⟨host, hhost⟩
          have hnone := hnobody host
          rw [getElem?_priorities, Option.map_eq_none_iff] at hnone
          simp [hnone] at hhost
      simp [hstill]
  | some leader =>
      have hiff := Priorities.leader?_eq_iff_of_newcomers (positive p) hleader fun m =>
        (hjoined m).imp_right fun h => ⟨h.1, h.2.2⟩
      simpa [getElem?_priorities] using hiff

theorem positive_alone (id : MemberId) (q : PartitionId) {priority : Priority}
    (positive : 1 ≤ priority) (p : PartitionId) :
    ((Topology.initial.addMember id
      (.active (.insert ∅ q (.active priority)))).priorities p).Positive := by
  intro other k hk
  rw [getElem?_priorities, replica?, member?_addMember] at hk
  by_cases hid : id = other
  · have hreplica : q = p ∧ priority = k := by
      simpa [hid, Member.active, Member.replica?, Std.ExtTreeMap.getElem?_insert, Replica.active]
        using hk
    exact hreplica.2 ▸ positive
  · simp [hid, Topology.initial, member?] at hk

/-- One member serves a partition alone, with the least priority.  The newcomer that takes the
second replica has a lesser name, and leads. -/
theorem exists_leader_moved :
    let t := Topology.initial.addMember "1" (.active (.insert ∅ 1 (.active 1)))
    let operations : List Operation :=
      [⟨"0", .joinCluster⟩, ⟨"2", .joinCluster⟩, ⟨"0", .joinPartition 1 1⟩]
    bootstrap ["1"] 1 1 = .ok t ∧ (∀ p, (t.priorities p).Positive) ∧
      addMembers ["0", "2"] 2 t = .ok operations ∧
      ∃ final, Replay {} t operations final ∧ (t.priorities 1).leader? = some "1" ∧
        (final.priorities 1).leader? = some "0" := by
  intro t operations
  have positive : ∀ p, (t.priorities p).Positive := positive_alone "1" 1 (by decide)
  have plan : addMembers ["0", "2"] 2 t = .ok operations := by decide +kernel
  have hpasses : t.Passes {} operations := (exists_growing {} plan).1
  exact ⟨by decide +kernel, positive, plan, t.performAll operations, hpasses.replay,
    by decide +kernel, by decide +kernel⟩

/-- With a higher priority the one member keeps the lead. -/
theorem leader_kept_iff_higher :
    let t := Topology.initial.addMember "1" (.active (.insert ∅ 1 (.active 2)))
    let operations : List Operation := [⟨"0", .joinCluster⟩, ⟨"0", .joinPartition 1 1⟩]
    (∀ p, (t.priorities p).Positive) ∧ addMembers ["0"] 2 t = .ok operations ∧
      ∃ final, Replay {} t operations final ∧ (final.replica? "0" 1).isSome ∧
        (final.priorities 1).leader? = some "1" := by
  intro t operations
  have positive : ∀ p, (t.priorities p).Positive := positive_alone "1" 1 (by decide)
  have plan : addMembers ["0"] 2 t = .ok operations := by decide +kernel
  rcases leader_kept_iff {} t ["0"] 2 operations positive plan with ⟨hpasses, hleader⟩
  have hbefore : (t.priorities 1).leader? = some "1" := by decide +kernel
  refine ⟨positive, plan, t.performAll operations, hpasses.replay, by decide +kernel, ?_⟩
  rw [← hbefore, hleader _ hpasses.replay 1, hbefore]
  intro leader hsame hleast
  have hpriority : (t.priorities 1)[("1" : MemberId)]? = some 2 := by decide +kernel
  rw [← Option.some.inj hsame, hpriority] at hleast
  cases hleast

end Planner

end ReplicaCluster
