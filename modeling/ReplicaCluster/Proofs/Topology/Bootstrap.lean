import ReplicaCluster.Proofs.Placement.RoundRobin
import ReplicaCluster.Proofs.Topology.Placement

/-!
# The first topology of a cluster

A cluster that has just been bootstrapped has the replicas of a round-robin placement
(`Topology.bootstrap_eq_ok_iff`, `Topology.priorities_founded`).  Nothing is joining or leaving in
it, and no change is pending.  Where each replica is, and how often each member leads, follows from
the way that the partitions go round the members (`Topology.bootstrap_places_in_turn`).
-/

namespace ReplicaCluster

namespace Topology

variable {t : Topology}

/-- All members take part, and all replicas serve. -/
structure AllActive (t : Topology) : Prop where
  members : ∀ id s, t.status? id = some s → s = .active
  replicas : ∀ id p r, t.replica? id p = some r → r.status = .active

theorem allActive_initial : initial.AllActive := by
  refine ⟨?_, ?_⟩
  · intro id s hs
    simp [initial, status?, member?] at hs
  · intro id p r hr
    simp [initial, replica?, member?] at hr

theorem AllActive.addMember (h : t.AllActive) (id : MemberId)
    {hosted : SortedMap PartitionId Replica}
    (serving : ∀ (p : PartitionId) (r : Replica), hosted[p]? = some r → r.status = .active) :
    (t.addMember id (.active hosted)).AllActive := by
  refine ⟨?_, ?_⟩
  · intro other s hs
    by_cases hid : id = other
    · have hactive : Status.active = s := by
        simpa [Topology.addMember, status?_updateMember, hid, Member.active] using hs
      exact hactive.symm
    · exact h.members other s (by
        simpa [Topology.addMember, status?_updateMember, hid] using hs)
  · intro other p r hr
    by_cases hid : id = other
    · exact serving p r (by
        simpa [Topology.addMember, replica?_updateMember, hid, Member.active, Member.replica?]
          using hr)
    · exact h.replicas other p r (by
        simpa [Topology.addMember, replica?_updateMember, hid] using hr)

/-- The members are added one by one, each with what it hosts. -/
theorem member?_foldl_addMember (hosted : MemberId → SortedMap PartitionId Replica)
    (id : MemberId) (members : List MemberId) :
    ∀ t : Topology, (members.foldl (fun t id => t.addMember id (.active (hosted id))) t).member? id =
      if id ∈ members then some (.active (hosted id)) else t.member? id := by
  induction members with
  | nil =>
      intro t
      simp
  | cons first rest ih =>
      intro t
      rw [List.foldl_cons, ih, member?_addMember]
      by_cases hrest : id ∈ rest
      · simp [hrest]
      · by_cases hfirst : first = id
        · simp [hrest, hfirst]
        · simp [hrest, hfirst, Ne.symm hfirst]

/-- New members start no change. -/
theorem pending_foldl_addMember (hosted : MemberId → SortedMap PartitionId Replica)
    (members : List MemberId) :
    ∀ t : Topology,
      (members.foldl (fun t id => t.addMember id (.active (hosted id))) t).initialized =
          t.initialized ∧
        (members.foldl (fun t id => t.addMember id (.active (hosted id))) t).pending =
          t.pending := by
  induction members with
  | nil =>
      intro t
      exact ⟨rfl, rfl⟩
  | cons first rest ih =>
      intro t
      exact ih _

theorem AllActive.replica?_eq_some_iff (h : t.AllActive) {id : MemberId} {p : PartitionId}
    {k : Priority} : t.replica? id p = some (.active k) ↔ (t.priorities p)[id]? = some k := by
  rw [getElem?_priorities, Option.map_eq_some_iff]
  constructor
  · intro hr
    exact ⟨_, hr, rfl⟩
  · rintro ⟨r, hr, rfl⟩
    rw [hr, Replica.active, ← h.replicas id p r hr]

section Bootstrap

variable {members : List MemberId} {partitionCount replicationFactor : Nat} {id : MemberId}
  {p : PartitionId}

/-! ## Founding a cluster -/

/-- A cluster of the given members, each with its share of the round-robin placement over them. -/
def founded (members : List MemberId) (partitionCount replicationFactor : Nat) : Topology :=
  let placement := Placement.roundRobin (sortDistinct members) partitionCount replicationFactor
  (sortDistinct members).foldl (fun t id => t.addMember id (.active
    (placement.filterMap fun _ priorities => priorities[id]?.map Replica.active))) initial

theorem bootstrap_eq_ok_iff : bootstrap members partitionCount replicationFactor = .ok t ↔
    (1 ≤ members.dedup.length ∧ 1 ≤ replicationFactor ∧
      replicationFactor ≤ members.dedup.length) ∧
    founded members partitionCount replicationFactor = t := by
  have hempty : (sortDistinct members).isEmpty ↔ members.dedup.length = 0 := by
    rw [← length_sortDistinct, List.isEmpty_iff_length_eq_zero]
  simp only [bootstrap, hempty, length_sortDistinct]
  split
  · next hnone => simp [refuse, hnone]
  · next hsome =>
      split
      · next hrange =>
          have hout : ¬(1 ≤ replicationFactor ∧ replicationFactor ≤ members.dedup.length) := by
            omega
          simp [refuse, hout]
      · next hrange =>
          rw [Except.ok.injEq]
          exact ⟨fun h => ⟨by omega, h⟩, And.right⟩

theorem kind_of_bootstrap {e : Failure}
    (h : bootstrap members partitionCount replicationFactor = .error e) :
    e.kind = .invalidRequest := by
  simp only [bootstrap] at h
  split at h
  · cases h
    rfl
  · split at h
    · cases h
      rfl
    · simp at h

theorem member?_founded : (founded members partitionCount replicationFactor).member? id =
    if id ∈ members then
      some (.active ((Placement.roundRobin (sortDistinct members) partitionCount
        replicationFactor).filterMap fun _ priorities => priorities[id]?.map Replica.active))
    else none := by
  rw [founded, member?_foldl_addMember]
  simp [mem_sortDistinct, initial, member?]

theorem status?_founded : (founded members partitionCount replicationFactor).status? id =
    if id ∈ members then some .active else none := by
  rw [status?, member?_founded]
  split <;> rfl

theorem replica?_founded : (founded members partitionCount replicationFactor).replica? id p =
    if id ∈ members then
      ((Placement.roundRobin (sortDistinct members) partitionCount replicationFactor).priority? p
        id).map Replica.active
    else none := by
  rw [replica?, member?_founded]
  split
  · simp only [Option.bind_some, Member.active, Member.replica?]
    rw [Std.ExtTreeMap.getElem?_filterMap', Placement.priority?, Option.map_bind]
    rfl
  · rfl

theorem allActive_founded : (founded members partitionCount replicationFactor).AllActive := by
  refine ⟨fun id s hs => ?_, fun id p r hr => ?_⟩
  · rw [status?_founded] at hs
    split at hs
    · exact (Option.some.inj hs).symm
    · simp at hs
  · rw [replica?_founded] at hr
    split at hr
    · rcases Option.map_eq_some_iff.1 hr with ⟨priority, -, rfl⟩
      rfl
    · simp at hr

theorem pending_founded :
    (founded members partitionCount replicationFactor).initialized ∧
      (founded members partitionCount replicationFactor).pending = none := by
  rw [founded, (pending_foldl_addMember _ _ _).1, (pending_foldl_addMember _ _ _).2]
  exact ⟨rfl, rfl⟩

theorem allActive_of_bootstrap (h : bootstrap members partitionCount replicationFactor = .ok t) :
    t.AllActive ∧ t.pending = none := by
  rcases bootstrap_eq_ok_iff.1 h with ⟨-, rfl⟩
  exact ⟨allActive_founded, pending_founded.2⟩

theorem replica?_of_bootstrap (h : bootstrap members partitionCount replicationFactor = .ok t)
    (id : MemberId) (p : PartitionId) :
    t.replica? id p =
      if id ∈ members then
        ((Placement.roundRobin (sortDistinct members) partitionCount replicationFactor).priority? p
          id).map Replica.active
      else none := by
  rcases bootstrap_eq_ok_iff.1 h with ⟨-, rfl⟩
  exact replica?_founded

/-! ## Where the replicas are -/

theorem keys_founded : (founded members partitionCount replicationFactor).members.keys =
    sortDistinct members := by
  refine eq_sortDistinct Std.ExtTreeMap.ordered_keys fun id => ?_
  rw [Std.ExtTreeMap.mem_keys, Std.ExtTreeMap.mem_iff_isSome_getElem?, ← member?, member?_founded]
  split <;> simp_all

theorem nodup_ring (members : List MemberId) : (sortDistinct members).toArray.toList.Nodup :=
  nodup_sortDistinct members

theorem size_ring (members : List MemberId) :
    (sortDistinct members).toArray.size = members.dedup.length :=
  length_sortDistinct members

section Enough

variable (positive : 1 ≤ replicationFactor) (enough : replicationFactor ≤ members.dedup.length)

include positive enough

/-- The hosts of a partition are the members that follow its place around the ring. -/
theorem priorities_founded :
    (founded members partitionCount replicationFactor).priorities p =
      if 1 ≤ p ∧ p ≤ partitionCount then
        .descending (Placement.successors (sortDistinct members).toArray (p - 1) replicationFactor)
      else ∅ := by
  have hnonempty : sortDistinct members ≠ [] := by
    rw [← List.length_pos_iff, length_sortDistinct]
    omega
  refine Std.ExtTreeMap.ext_getElem? fun id => ?_
  rw [getElem?_priorities, replica?_founded, Placement.priority?,
    Placement.getElem?_roundRobin hnonempty, length_sortDistinct, Nat.min_eq_left enough]
  by_cases hp : 1 ≤ p ∧ p ≤ partitionCount
  · rw [if_pos hp, if_pos hp, Option.bind_some]
    by_cases hid : id ∈ members
    · rw [if_pos hid, Option.map_map]
      exact Option.map_id_apply
    · -- Whoever is no member has no place in the ring, so it follows none.
      rw [if_neg hid, Option.map_none, eq_comm, Option.eq_none_iff_forall_ne_some]
      intro priority hpriority
      rw [Priorities.getElem?_descending_iff (Placement.nodup_successors (nodup_ring members)
        (enough.trans_eq (size_ring members).symm))] at hpriority
      rcases hpriority with ⟨j, hj, -⟩
      refine hid (mem_sortDistinct.1 (List.mem_toArray.1 ?_))
      exact Placement.mem_of_mem_successors (List.mem_of_getElem? hj)
  · simp [hp]

theorem replicaCount_founded (hp : 1 ≤ p ∧ p ≤ partitionCount) :
    (founded members partitionCount replicationFactor).replicaCount p = replicationFactor := by
  have hfits := enough.trans_eq (size_ring members).symm
  rw [← size_priorities, priorities_founded positive enough, if_pos hp,
    Priorities.size_descending (Placement.nodup_successors (nodup_ring members) hfits),
    Placement.length_successors (by omega)]

theorem partitions_founded :
    (founded members partitionCount replicationFactor).partitions =
      List.range' 1 partitionCount := by
  have hrange : ∀ p, p ∈ List.range' 1 partitionCount ↔
      p ∈ (founded members partitionCount replicationFactor).partitions := by
    intro p
    rw [mem_partitions_iff_replicaCount_pos, List.mem_range'_1]
    by_cases hp : 1 ≤ p ∧ p ≤ partitionCount
    · rw [replicaCount_founded positive enough hp]
      omega
    · rw [← size_priorities, priorities_founded positive enough, if_neg hp,
        Std.ExtTreeMap.size_empty]
      omega
  -- The partitions are listed in ascending order, as the numbers are.
  simp only [partitions, mem_sortDistinct] at hrange
  refine (eq_sortDistinct ?_ hrange).symm
  exact (List.pairwise_lt_range' 1).imp fun hlt => Nat.compare_eq_lt.2 hlt

theorem replica?_founded_iff {j : Nat} (hp : 1 ≤ p ∧ p ≤ partitionCount)
    (hj : j < replicationFactor) :
    (founded members partitionCount replicationFactor).replica? id p =
        some (.active (replicationFactor - j)) ↔
      (sortDistinct members)[(p - 1 + j) % members.dedup.length]? = some id := by
  have hfits := enough.trans_eq (size_ring members).symm
  rw [allActive_founded.replica?_eq_some_iff, priorities_founded positive enough, if_pos hp,
    Placement.getElem?_descending_successors_iff (nodup_ring members) hfits hj, size_ring,
    List.getElem?_toArray]

/-- The members lead in turn. -/
theorem leader?_founded (hp : 1 ≤ p ∧ p ≤ partitionCount) :
    ((founded members partitionCount replicationFactor).priorities p).leader? =
      (sortDistinct members).toArray[(p - 1) % (sortDistinct members).toArray.size]? := by
  have hfits := enough.trans_eq (size_ring members).symm
  rw [priorities_founded positive enough, if_pos hp,
    Placement.leader?_descending_successors (nodup_ring members) hfits positive]

theorem countP_leader?_founded (hid : id ∈ members) :
    let t := founded members partitionCount replicationFactor
    let led := t.partitions.countP fun p => (t.priorities p).leader? = some id
    led = partitionCount / members.dedup.length ∨
      led = (partitionCount + members.dedup.length - 1) / members.dedup.length := by
  intro t led
  -- Counted from 0, the number of a partition is its place on the way round.
  have hled : led = (List.range partitionCount).countP fun offset =>
      (sortDistinct members).toArray[offset % (sortDistinct members).toArray.size]? = some id := by
    simp only [led, t, partitions_founded positive enough]
    rw [List.range'_eq_map_range, List.countP_map]
    refine List.countP_congr fun offset hoffset => ?_
    have hp : 1 ≤ 1 + offset ∧ 1 + offset ≤ partitionCount := by
      have hbelow := List.mem_range.1 hoffset
      omega
    simp only [Function.comp_apply, leader?_founded positive enough hp, Nat.add_sub_cancel_left]
  rw [hled, ← size_ring]
  exact Placement.countP_turns (nodup_ring members)
    (List.mem_toArray.2 (mem_sortDistinct.2 hid)) partitionCount

end Enough

/-! ## The placement of a new cluster -/

/-- A cluster can be bootstrapped just if the replication factor is at least 1 and at most the number
of different members; any other request is invalid.  In the new cluster nothing is pending and
everything is active.  The partitions are numbered from 1, and the replicas of a partition are on
the members that follow its place in the order of their names, by descending priority.  Each member
leads its even share of the partitions, rounded down or up. -/
theorem bootstrap_places_in_turn (members : List MemberId)
    (partitionCount replicationFactor : Nat) :
    let n := members.dedup.length
    ((∃ t, bootstrap members partitionCount replicationFactor = .ok t) ↔
      1 ≤ n ∧ 1 ≤ replicationFactor ∧ replicationFactor ≤ n) ∧
    (∀ e, bootstrap members partitionCount replicationFactor = .error e →
      e.kind = .invalidRequest) ∧
    ∀ t, bootstrap members partitionCount replicationFactor = .ok t →
      let ring := t.members.keys
      (ring.Pairwise (· < ·) ∧ (∀ id, id ∈ ring ↔ id ∈ members) ∧ ring.length = n) ∧
      (t.initialized ∧ t.pending = none ∧ t.AllActive) ∧
      t.partitions = List.range' 1 partitionCount ∧
      (∀ p ∈ t.partitions, t.replicaCount p = replicationFactor ∧
        ∀ j < replicationFactor, ∀ id,
          t.replica? id p = some (.active (replicationFactor - j)) ↔
            ring[(p - 1 + j) % n]? = some id) ∧
      ∀ id ∈ ring,
        let led := t.partitions.countP fun p => (t.priorities p).leader? = some id
        led = partitionCount / n ∨ led = (partitionCount + n - 1) / n := by
  intro n
  refine ⟨?_, fun e he => kind_of_bootstrap he, fun t ht => ?_⟩
  · constructor
    · rintro ⟨t, ht⟩
      exact (bootstrap_eq_ok_iff.1 ht).1
    · intro hrange
      exact ⟨_, bootstrap_eq_ok_iff.2 ⟨hrange, rfl⟩⟩
  rcases bootstrap_eq_ok_iff.1 ht with ⟨⟨-, positive, enough⟩, rfl⟩
  have hmem : ∀ p ∈ (founded members partitionCount replicationFactor).partitions,
      1 ≤ p ∧ p ≤ partitionCount := by
    intro p hp
    rw [partitions_founded positive enough, List.mem_range'_1] at hp
    exact ⟨hp.1, Nat.lt_one_add_iff.1 hp.2⟩
  rw [keys_founded]
  refine ⟨⟨?_, fun id => mem_sortDistinct, length_sortDistinct members⟩,
    ⟨pending_founded.1, pending_founded.2, allActive_founded⟩,
    partitions_founded positive enough, fun p hp => ⟨?_, fun j hj id => ?_⟩, fun id hid => ?_⟩
  · exact (Std.ExtTreeSet.ofList members compare).ordered_toList.imp compare_lt_iff_lt.1
  · exact replicaCount_founded positive enough (hmem p hp)
  · exact replica?_founded_iff positive enough (hmem p hp) hj
  · exact countP_leader?_founded positive enough (mem_sortDistinct.1 hid)

/-- Four partitions with a replica on each of three members, one of which is listed twice. -/
theorem bootstrap_places_in_turn_repeated :
    let members := ["c", "a", "b", "a"]
    let t := founded members 4 3
    bootstrap members 4 3 = .ok t ∧ t.members.keys = ["a", "b", "c"] ∧ t.AllActive ∧
      t.partitions = [1, 2, 3, 4] ∧ t.replicaCount 4 = 3 ∧
      t.replica? "b" 2 = some (.active 3) ∧ t.replica? "a" 2 = some (.active 1) ∧
      let led := t.partitions.countP fun p => (t.priorities p).leader? = some "a"
      led = 1 ∨ led = 2 := by
  intro members t
  have hboot : bootstrap members 4 3 = .ok t := bootstrap_eq_ok_iff.2 ⟨by decide, rfl⟩
  have hkeys : t.members.keys = ["a", "b", "c"] := by decide +kernel
  have hcount : members.dedup.length = 3 := by decide
  rcases (bootstrap_places_in_turn members 4 3).2.2 t hboot with
    ⟨-, ⟨-, -, hactive⟩, hpartitions, hreplicas, hled⟩
  simp only [hkeys, hcount] at hreplicas hled
  have hmem : ∀ p ∈ [1, 2, 3, 4], p ∈ t.partitions := fun p hp => hpartitions ▸ hp
  refine ⟨hboot, hkeys, hactive, hpartitions, (hreplicas 4 (hmem 4 (by decide))).1, ?_, ?_,
    hled "a" (by decide)⟩
  · exact ((hreplicas 2 (hmem 2 (by decide))).2 0 (by decide) "b").2 rfl
  · exact ((hreplicas 2 (hmem 2 (by decide))).2 2 (by decide) "a").2 rfl

end Bootstrap

end Topology

end ReplicaCluster
