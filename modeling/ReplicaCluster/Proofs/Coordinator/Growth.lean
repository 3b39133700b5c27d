import ReplicaCluster.Proofs.Coordinator.Resettlement
import ReplicaCluster.Proofs.Planning.Growth

/-!
# Adding members completes the partitions

Whatever the statuses of members and replicas are, members can be added.  All of the newcomers
serve in the end, the old members are untouched, and each partition has got the replicas that it
lacked, as far as there are newcomers to take them; no newcomer takes two more than another one
(`Coordinator.growth_completes_partitions`).
-/

namespace ReplicaCluster

open ReplicaCluster.Topology

/-! ## Requests for a growth -/

namespace Coordinator

open ReplicaCluster.Planner

/-- What a topology is after newcomers were added to it. -/
structure Grown (t : Topology) (new : List MemberId) (replicationFactor : Nat)
    (final : Topology) : Prop where
  joined : ∀ id ∈ new, final.status? id = some .active
  kept : ∀ id ∉ new, final.member? id = t.member? id
  partitions : final.partitions = t.partitions
  replicaCount : ∀ p ∈ t.partitions, final.replicaCount p =
    max (t.replicaCount p) (min replicationFactor (t.replicaCount p + new.length))
  serving : ∀ id ∈ new, ∀ p r, final.replica? id p = some r → r.status = .active
  level : ∀ a ∈ new, ∀ b ∈ new, ∀ m m', final.member? a = some m → final.member? b = some m' →
    m.replicas.size ≤ m'.replicas.size + 1

theorem grown_of_growing {t final : Topology} {new : List MemberId} {replicationFactor : Nat}
    {load : Load} (h : Growing t new replicationFactor [] load final)
    (kept : ∀ id ∉ new, final.member? id = t.member? id) :
    Grown t new replicationFactor final := by
  refine ⟨fun id hid => ?_, kept, ?_, fun p hp => ?_, fun id hid p r hr => ?_,
    fun a ha b hb m m' hm hm' => ?_⟩
  · rw [h.status?, if_pos hid]
  · -- A partition has a host now just if it had one before.
    refine partitions_congr fun p => ?_
    rw [← mem_partitions_iff, ← mem_partitions_iff, mem_partitions_iff_replicaCount_pos,
      h.replicaCount]
    by_cases hp : p ∈ t.partitions
    · have hpositive := mem_partitions_iff_replicaCount_pos.1 hp
      simp [hp, hpositive]
    · simp [hp, ← mem_partitions_iff_replicaCount_pos]
  · rw [h.replicaCount, if_pos ⟨hp, List.not_mem_nil⟩]
  · rcases h.fresh id hid p with hnone | ⟨-, -, hsome⟩
    · simp [hnone] at hr
    · rw [hsome] at hr
      cases hr
      rfl
  · have hlevel := h.level a ha b hb
    rwa [h.count a ha, h.count b hb, card_hosting hm, card_hosting hm'] at hlevel

/-- A request that adds at least one new member is accepted, with whatever settings.  In the end all
newcomers serve, and so do their replicas; the others are as they were.  Each partition has as many
replicas as the replication factor asks for, or all newcomers on top of its hosts if these are not
enough, or what it had if that was more.  No newcomer has two replicas more than another one. -/
theorem growth_completes_partitions (settings : Settings) (now : Int) (t : Topology)
    (members : List MemberId) (replicationFactor : Nat) (initialized : t.initialized)
    (idle : t.pending = none) (fresh : ∃ id ∈ members, t.hasMember id = false) :
    ∃ p, propose settings now (addMembers members replicationFactor) t = .ok (some p) ∧
      addMembers members replicationFactor t = .ok p.operations ∧
      p.started.simulate settings now = .ok p.final ∧
      Grown t (newcomers t (sortDistinct members)) replicationFactor p.final := by
  have hnew : newcomers t (sortDistinct members) ≠ [] := by
    rcases fresh with ⟨id, hid, hunknown⟩
    exact List.ne_nil_of_mem (mem_newcomers_iff.2 ⟨mem_sortDistinct.2 hid, hunknown⟩)
  have hplan : ∃ operations ≠ [], addMembers members replicationFactor t = .ok operations :=
    ⟨_, by simp [hnew], addMembers_eq members replicationFactor t⟩
  rcases hplan with ⟨operations, hnonempty, hplan⟩
  rcases exists_growing settings hplan with ⟨hpasses, load, hgrown⟩
  rcases propose_of_replay now initialized idle hplan hnonempty hpasses.replay with
    ⟨p, hpropose, hoperations, hstarted, halike⟩
  rcases propose_eq_ok_some_iff.1 hpropose with ⟨hplanned, -, -, -, hsim⟩
  refine ⟨p, hpropose, hplanned, hsim, grown_of_growing (hgrown.alike halike) fun id hid => ?_⟩
  -- All operations are about newcomers.
  have hothers : ∀ op ∈ operations, op.member ≠ id ∧ ∀ p, ¬ op.Overwrites p := by
    intro op hop
    rcases enlists_of_mem_addMembers hplan op hop with ⟨hmember, hkept⟩
    exact ⟨fun hsame => hid (hsame ▸ hmember), hkept⟩
  rw [hstarted, simulate_begun_eq_ok_iff] at hsim
  exact (member?_foldlM_carryOut hothers hsim).trans (member?_congr rfl)

/-- Two newcomers share what two partitions lack, both of them on a member that is leaving. -/
theorem growth_completes_partitions_irregular :
    let t := Topology.initial.addMember "a"
      ⟨3, .leaving, .ofList [(1, Replica.active 2), (2, ⟨.leaving, 1⟩)]⟩
    t.initialized ∧ t.pending = none ∧ (∃ id ∈ ["b", "a", "c", "b"], t.hasMember id = false) ∧
      ∃ p, propose { replicationFactor := 5 } 0 (addMembers ["b", "a", "c", "b"] 2) t =
          .ok (some p) ∧
        p.final.status? "b" = some .active ∧ p.final.status? "c" = some .active ∧
        p.final.member? "a" = t.member? "a" ∧
        p.final.replicaCount 1 = 2 ∧ p.final.replicaCount 2 = 2 := by
  intro t
  have fresh : ∃ id ∈ ["b", "a", "c", "b"], t.hasMember id = false :=
    ⟨"b", by decide, by decide +kernel⟩
  rcases growth_completes_partitions { replicationFactor := 5 } 0 t ["b", "a", "c", "b"] 2 rfl rfl
    fresh with ⟨p, hpropose, -, -, hgrown⟩
  have hnew : newcomers t (sortDistinct ["b", "a", "c", "b"]) = ["b", "c"] := by decide +kernel
  rw [hnew] at hgrown
  refine ⟨rfl, rfl, fresh, p, hpropose, hgrown.joined "b" (by decide),
    hgrown.joined "c" (by decide), hgrown.kept "a" (by decide), ?_, ?_⟩
  · rw [hgrown.replicaCount 1 (by decide +kernel)]
    decide +kernel
  · rw [hgrown.replicaCount 2 (by decide +kernel)]
    decide +kernel

end Coordinator

end ReplicaCluster
