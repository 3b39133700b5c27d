import ReplicaCluster.Proofs.Coordinator.Agreement
import ReplicaCluster.Proofs.Planning.Completion

/-!
# Asking for the same placement again

A completed reassignment or resizing has brought the partitions to the target of rebalancing.  The
same request then plans nothing just if this target is settled, as every even one is
(`Coordinator.reassignment_idempotent_iff`).  Rebalancing does not always come to a settled target:
where it was not even, a second run may keep other replicas than the first one, and move partitions
once more (`Coordinator.exists_reassignment_repeated`).
-/

namespace ReplicaCluster

namespace Planner

theorem resettles_of_ok {t : Topology} {members : List MemberId} {replicationFactor : Nat}
    {planner : Planner} {operations : List Operation}
    (asks : planner = .reassign members replicationFactor ∨
      planner = .scale members replicationFactor)
    (plan : planner t = .ok operations) :
    ∃ ids, Resettles t members replicationFactor planner ids := by
  rcases asks with rfl | rfl
  · refine ⟨_, .reassign fun m hm => ?_⟩
    by_contra hunknown
    have hfound : ((sortDistinct members).find? fun m => !t.hasMember m).isSome :=
      List.find?_isSome.2 ⟨m, mem_sortDistinct.2 hm, by simpa using hunknown⟩
    rcases Option.isSome_iff_exists.1 hfound with ⟨unknown, hunknown⟩
    simp [reassign, hunknown, refuse] at plan
  · exact ⟨_, .scale⟩

end Planner

namespace Coordinator

open ReplicaCluster.Planner ReplicaCluster.Topology

variable {settings : Settings} {t : Topology} {members : List MemberId} {replicationFactor : Nat}
  {planner : Planner} {now : Int} {p : Proposal}

/-- The topology that is proposed is where a replay of the operations leads. -/
theorem replay_of_propose (h : propose settings now planner t = .ok (some p)) :
    Replay settings t p.operations p.final := by
  rcases propose_eq_ok_some_iff.1 h with ⟨-, hnonempty, -, hstart, hsim⟩
  have hbegun := (startChange_eq_ok_iff.1 hstart).2.2
  rw [hbegun, simulate_begun_eq_ok_iff] at hsim
  have hall : (t.begun p.operations).Awaits now t.nextChangeId [] (p.operations ++ []) := by
    simpa only [List.append_nil] using awaits_begun now hnonempty
  exact (Replay.of_foldlM hall hsim).alike_left (.of_members rfl)

/-- A second run of rebalancing changes nothing just if the target of the first one is settled,
which it is if it is even.  In the same cases a completed reassignment, or resizing, plans nothing
when it is requested again. -/
theorem reassignment_idempotent_iff (members : List MemberId) (replicationFactor : Nat)
    (positive : 1 ≤ replicationFactor) (enough : replicationFactor ≤ members.dedup.length) :
    (∀ current : Placement,
      let target := current.rebalance members replicationFactor
      (target.rebalance members replicationFactor = target ↔
          target.Settled members replicationFactor) ∧
        (members.Nodup →
          (∀ a ∈ members, ∀ b ∈ members,
            (target.hostedBy a).length ≤ (target.hostedBy b).length + 1) →
          target.Settled members replicationFactor)) ∧
      ∀ (settings : Settings) (committedAt drainedAt : Int) (t : Topology) (planner : Planner)
        (p : Proposal),
        planner = .reassign members replicationFactor ∨
          planner = .scale members replicationFactor →
        propose settings committedAt planner t = .ok (some p) →
        let target := t.placement.rebalance (sortDistinct members) replicationFactor
        (∃ final writes calls,
          Execution.drain Undisturbed.host Undisturbed.progress settings drainedAt
            ⟨.memory p.started, [p.started], []⟩ =
              (.ok p.operations.length, ⟨.memory final, writes, calls⟩) ∧
          final.pending = none ∧ final.profile = p.final.profile) ∧
        ∀ u : Topology, u.profile = p.final.profile →
          u.placement = target ∧
          (planner u = .ok [] ↔ target.Settled (sortDistinct members) replicationFactor) ∧
          ((∀ a ∈ members, ∀ b ∈ members,
            (target.hostedBy a).length ≤ (target.hostedBy b).length + 1) →
            planner u = .ok []) := by
  refine ⟨fun current => ⟨?_, fun distinct level => ?_⟩,
    fun settings committedAt drainedAt t planner p asks proposed => ?_⟩
  · exact Placement.rebalance_eq_self_iff
      (current.regular_rebalance (ne_nil_of_enough positive enough) enough)
      (ne_nil_of_enough positive enough) enough
  · exact Placement.settled_of_level
      (current.regular_rebalance (ne_nil_of_enough positive enough) enough) distinct
      (ne_nil_of_enough positive enough) level
  · intro target
    have hplan := (propose_eq_ok_some_iff.1 proposed).1
    have hlength : replicationFactor ≤ (sortDistinct members).length := by
      rwa [length_sortDistinct]
    have hdistinct : replicationFactor ≤ (sortDistinct members).dedup.length := by
      rwa [(nodup_sortDistinct members).dedup]
    rcases resettles_of_ok asks hplan with ⟨ids, hresettles⟩
    rcases hresettles.plan positive hlength with ⟨unwanted, -, -, hids, hoperations⟩
    -- The topology at the end is where a replay of the plan leads, whatever its timestamps are.
    have hreplay := replay_of_propose proposed
    rw [Except.ok.inj (hplan.symm.trans hoperations)] at hreplay
    have hcompleted := completed_of_replay positive hdistinct hreplay
    refine ⟨?_, fun u hu => ?_⟩
    · rcases drain_of_propose drainedAt proposed with
        ⟨final, ended, writes, calls, hdrain, -, huntimed, hnone, -⟩
      exact ⟨final, writes, calls, hdrain, hnone,
        profile_eq_iff.2 (.of_members (members_eq_of_untimed huntimed))⟩
    · have hu := hcompleted.alike (profile_eq_iff.1 hu)
      have hplacement := hu.placement_eq positive hdistinct
      have hagain := hu.plan_eq_nil_iff hresettles hids positive hlength
      rw [hplacement] at hagain
      refine ⟨hplacement, hagain, fun level => hagain.2 ?_⟩
      exact Placement.settled_of_level
        (t.placement.regular_rebalance (ne_nil_of_enough positive hdistinct) hdistinct)
        (nodup_sortDistinct members) (ne_nil_of_enough positive hdistinct)
        fun a ha b hb => level a (mem_sortDistinct.1 ha) b (mem_sortDistinct.1 hb)

/-- A cluster of one member with two partitions grows to three members with two replicas of each. -/
theorem reassignment_idempotent_iff_newcomers :
    let t := Topology.initial.addMember "a"
      (Member.active (.ofList [(1, Replica.active 1), (2, Replica.active 3)]))
    let members := ["c", "a", "b"]
    1 ≤ 2 ∧ 2 ≤ members.dedup.length ∧
      ∃ p, propose {} 7 (.scale members 2) t = .ok (some p) ∧
        p.final.placement = t.placement.rebalance (sortDistinct members) 2 ∧
        scale members 2 p.final = .ok [] := by
  intro t members
  have enough : 2 ≤ members.dedup.length := by decide
  have level : ∀ a ∈ members, ∀ b ∈ members,
      ((t.placement.rebalance (sortDistinct members) 2).hostedBy a).length ≤
        ((t.placement.rebalance (sortDistinct members) 2).hostedBy b).length + 1 := by
    decide +kernel
  have hproposes : (propose {} 7 (.scale members 2) t).toOption.join.isSome = true := by
    decide +kernel
  rcases hpropose : propose {} 7 (.scale members 2) t with e | _ | p
  · simp [hpropose, Except.toOption] at hproposes
  · simp [hpropose, Except.toOption] at hproposes
  · rcases (reassignment_idempotent_iff members 2 (by decide) enough).2 {} 7 8 t
      (.scale members 2) p (Or.inr rfl) hpropose with ⟨-, hagain⟩
    rcases hagain p.final rfl with ⟨hplacement, -, hnothing⟩
    exact ⟨by decide, enough, p, rfl, hplacement, hnothing level⟩

/-- The first run leaves one partition on its two hosts.  The second one finds that one of them has
reached its fair share before it comes to this partition, and moves the partition on. -/
theorem exists_reassignment_repeated :
    let t := ((Topology.initial.addMember "a"
        (Member.active (.ofList [(3, Replica.active 2)]))).addMember "b"
        (Member.active (.ofList [(2, Replica.active 1)]))).addMember "c"
        (Member.active (.ofList [(1, Replica.active 1), (3, Replica.active 1)]))
    let members := ["a", "b", "c"]
    let target := t.placement.rebalance members 2
    let settings : Settings := { replicationFactor := 2 }
    members.Nodup ∧ 1 ≤ 2 ∧ 2 ≤ members.length ∧
      target.rebalance members 2 ≠ target ∧
      ((propose settings 7 (.reassign members 2) t).toOption.join.map fun p =>
        (p.final.placement, (reassign members 2 p.final).toOption)) =
          some (target, some [⟨"b", .joinPartition 3 1⟩, ⟨"c", .setPriority 3 2⟩,
            ⟨"a", .leavePartition 3⟩]) := by
  decide +kernel

end Coordinator

end ReplicaCluster
