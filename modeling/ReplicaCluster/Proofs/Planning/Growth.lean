import ReplicaCluster.Planning.Growth
import ReplicaCluster.Proofs.Execution.Performing
import ReplicaCluster.Proofs.Placement.Balance
import ReplicaCluster.Proofs.Planning.Resettlement

/-!
# Growing a cluster

The plan that adds members lets them join the cluster, and then the partitions one after the other.
Before each partition the load that the planner keeps says how many partitions each newcomer hosts,
and all that is new are replicas on newcomers of the partitions that were treated (`Growing`).  So
each join finds a host to copy from, and whatever a partition lacks it gets, as far as there are
newcomers to take it (`Planner.exists_growing`).
-/

namespace ReplicaCluster

namespace Planner

open ReplicaCluster.Topology

variable {settings : Settings} {t u : Topology} {new hosts members : List MemberId}
  {replicationFactor : Nat} {rest : List PartitionId} {load : Load} {m id host : MemberId}
  {p q : PartitionId} {priority : Priority} {operations : List Operation}

/-! ## Several members join a partition -/

def additions (p : PartitionId) (priority : Priority) (hosts : List MemberId) : List Operation :=
  hosts.map (⟨·, .joinPartition p priority⟩)

theorem status?_additions :
    (u.performAll (additions p priority hosts)).status? id = u.status? id := by
  induction hosts generalizing u with
  | nil => rfl
  | cons host rest ih => exact ih.trans status?_perform_joinPartition

theorem replica?_additions (known : ∀ m ∈ hosts, (u.status? m).isSome) :
    (u.performAll (additions p priority hosts)).replica? id q =
      if id ∈ hosts ∧ p = q then some (.active priority) else u.replica? id q := by
  induction hosts generalizing u with
  | nil => simp [additions]
  | cons host rest ih =>
      rcases List.forall_mem_cons.1 known with ⟨hhost, hrest⟩
      let joined := Operation.perform ⟨host, .joinPartition p priority⟩ u
      have hknown : ∀ m ∈ rest, (joined.status? m).isSome := by
        simpa only [joined, status?_perform_joinPartition] using hrest
      calc (u.performAll (additions p priority (host :: rest))).replica? id q
        _ = (joined.performAll (additions p priority rest)).replica? id q := rfl
        _ = if id ∈ rest ∧ p = q then some (.active priority) else joined.replica? id q := ih hknown
        _ = if id ∈ host :: rest ∧ p = q then some (.active priority) else u.replica? id q := by
          rw [replica?_perform_joinPartition hhost]
          by_cases hq : p = q
          · by_cases hid : host = id
            · simp [hq, hid]
            · simp [hq, hid, Ne.symm hid]
          · simp [hq]

/-- Members that did not host the partition add as many replicas to it. -/
theorem replicaCount_additions (distinct : hosts.Nodup)
    (known : ∀ m ∈ hosts, (u.status? m).isSome) (free : ∀ m ∈ hosts, u.replica? m p = none) :
    (u.performAll (additions p priority hosts)).replicaCount q =
      u.replicaCount q + if p = q then hosts.length else 0 := by
  by_cases hq : p = q
  · subst hq
    have hunion : (u.performAll (additions p priority hosts)).hosts p =
        u.hosts p ∪ hosts.toFinset := by
      ext id
      rw [Finset.mem_union, mem_hosts_iff, mem_hosts_iff, replica?_additions known,
        List.mem_toFinset]
      by_cases hid : id ∈ hosts
      · simp [hid]
      · simp [hid]
    have hdisjoint : Disjoint (u.hosts p) hosts.toFinset := by
      rw [Finset.disjoint_right]
      intro id hid
      rw [mem_hosts_iff, free id (List.mem_toFinset.1 hid)]
      simp
    rw [replicaCount_eq_card_hosts, hunion, Finset.card_union_of_disjoint hdisjoint,
      List.toFinset_card_of_nodup distinct, ← replicaCount_eq_card_hosts]
    simp
  · rw [if_neg hq]
    exact replicaCount_congr fun id => by simp [replica?_additions known, hq]

theorem hosting_additions (known : ∀ m ∈ hosts, (u.status? m).isSome)
    (free : ∀ m ∈ hosts, u.replica? m p = none) :
    ((u.performAll (additions p priority hosts)).hosting id).card =
      (u.hosting id).card + if id ∈ hosts then 1 else 0 := by
  by_cases hid : id ∈ hosts
  · have hinsert : (u.performAll (additions p priority hosts)).hosting id =
        insert p (u.hosting id) := by
      ext q
      rw [Finset.mem_insert, mem_hosting_iff, mem_hosting_iff, replica?_additions known]
      by_cases hq : p = q
      · simp [hid, hq]
      · simp [hq, Ne.symm hq]
    have hnew : p ∉ u.hosting id := by simp [mem_hosting_iff, free id hid]
    simp [hinsert, hnew, hid]
  · rw [if_neg hid]
    exact congrArg Finset.card (hosting_congr fun q => by simp [replica?_additions known, hid])

/-- Members may join a partition one after the other if somebody else hosts it. -/
theorem passes_additions (hosted : (u.replica? host p).isSome) (distinct : hosts.Nodup)
    (active : ∀ m ∈ hosts, u.status? m = some .active) (free : ∀ m ∈ hosts, u.replica? m p = none) :
    u.Passes settings (additions p priority hosts) := by
  induction hosts generalizing u with
  | nil => exact passes_nil
  | cons m rest ih =>
      rcases List.nodup_cons.1 distinct with ⟨hfresh, hdistinct⟩
      rcases List.forall_mem_cons.1 active with ⟨hm, hactive⟩
      rcases List.forall_mem_cons.1 free with ⟨hnone, hfree⟩
      let joined := Operation.perform ⟨m, .joinPartition p priority⟩ u
      have hknown : (u.status? m).isSome := by simp [hm]
      have hreplica : ∀ id, joined.replica? id p =
          if m = id then some (.active priority) else u.replica? id p := fun id => by
        simp [joined, replica?_perform_joinPartition hknown]
      have hstill : (joined.replica? host p).isSome := by
        rw [hreplica]
        split
        · rfl
        · exact hosted
      have hrest : joined.Passes settings (additions p priority rest) := by
        refine ih hstill hdistinct ?_ fun id hid => ?_
        · simpa only [joined, status?_perform_joinPartition] using hactive
        · have hne : m ≠ id := by
            rintro rfl
            exact hfresh hid
          rw [hreplica, if_neg hne, hfree id hid]
      exact passes_cons_iff.2 ⟨exists_ready_joinPartition hm hnone hosted, hrest⟩

/-! ## Partition by partition -/

/-- The newcomers have joined, and they host what the partitions that are not in `rest` lacked. -/
structure Growing (t : Topology) (new : List MemberId) (replicationFactor : Nat)
    (rest : List PartitionId) (load : Load) (u : Topology) : Prop where
  lists : load.Lists new
  level : load.Level new
  count : ∀ id ∈ new, load.count id = (u.hosting id).card
  status? : ∀ id, u.status? id = if id ∈ new then some .active else t.status? id
  old : ∀ id ∉ new, ∀ p, u.replica? id p = t.replica? id p
  fresh : ∀ id ∈ new, ∀ p, u.replica? id p = none ∨
    p ∈ t.partitions ∧ p ∉ rest ∧
      u.replica? id p = some (.active (newcomerPriority (t.priorities p)))
  replicaCount : ∀ p, u.replicaCount p =
    if p ∈ t.partitions ∧ p ∉ rest then
      max (t.replicaCount p) (min replicationFactor (t.replicaCount p + new.length))
    else t.replicaCount p

namespace Growing

theorem alike (h : Growing t new replicationFactor rest load u) {u' : Topology}
    (like : u'.Alike u) : Growing t new replicationFactor rest load u' where
  lists := h.lists
  level := h.level
  count id hid := by
    rw [h.count id hid]
    exact congrArg Finset.card (hosting_congr fun p => by rw [like.replica?])
  status? id := (like.status? id).trans (h.status? id)
  old id hid p := (like.replica? id p).trans (h.old id hid p)
  fresh id hid p := by simpa only [like.replica?] using h.fresh id hid p
  replicaCount p := (like.replicaCount p).trans (h.replicaCount p)

/-- Newcomers do not host a partition that is still to come, and they may. -/
theorem admits (h : Growing t new replicationFactor (p :: rest) load u)
    (selection : Selection new hosts) :
    ∀ m ∈ hosts, u.status? m = some .active ∧ u.replica? m p = none := by
  intro m hm
  have hnew := selection.subset m hm
  refine ⟨by rw [h.status?, if_pos hnew], ?_⟩
  rcases h.fresh m hnew p with hnone | ⟨-, hdone, -⟩
  · exact hnone
  · exact absurd List.mem_cons_self hdone

theorem passes (h : Growing t new replicationFactor (p :: rest) load u)
    (unknown : ∀ id ∈ new, t.status? id = none) (partition : p ∈ t.partitions)
    (selection : Selection new hosts) : u.Passes settings (additions p priority hosts) := by
  rcases mem_partitions_iff.1 partition with ⟨host, hhost⟩
  have hold : host ∉ new := by
    intro hnew
    simp [replica?_eq_none_of_absent (unknown host hnew)] at hhost
  have hstill : (u.replica? host p).isSome := by
    rw [h.old host hold]
    exact hhost
  exact passes_additions hstill selection.nodup (fun m hm => (h.admits selection m hm).1)
    fun m hm => (h.admits selection m hm).2

/-- What is left to do starts with the first of the remaining partitions, which is filled. -/
theorem fill (h : Growing t new replicationFactor (p :: rest) load u) (distinct : new.Nodup)
    (partition : p ∈ t.partitions) (once : p ∉ rest) :
    let filled := Load.fill ∅ (replicationFactor - (t.priorities p).size) load []
    Growing t new replicationFactor rest filled.1
      (u.performAll (additions p (newcomerPriority (t.priorities p)) filled.2)) := by
  intro filled
  have hfilled := Load.fills_fill distinct ∅ (replicationFactor - (t.priorities p).size) h.lists
  have hfills : Load.Fills new load filled.1 filled.2 := hfilled.1
  -- The places are those that the replication factor leaves open.
  have hlength : filled.2.length = min (replicationFactor - t.replicaCount p) new.length := by
    rw [← size_priorities]
    exact hfilled.2
  clear_value filled
  have hknown : ∀ m ∈ filled.2, (u.status? m).isSome := fun m hm => by
    simp [(h.admits hfills.selection m hm).1]
  have hfree : ∀ m ∈ filled.2, u.replica? m p = none :=
    fun m hm => (h.admits hfills.selection m hm).2
  refine ⟨hfills.lists, hfills.level h.level, fun id hid => ?_, fun id => ?_, fun id hid q => ?_,
    fun id hid q => ?_, fun q => ?_⟩
  · rw [hfills.count, h.count id hid, hosting_additions hknown hfree]
  · rw [status?_additions, h.status?]
  · have hpassed : id ∉ filled.2 := fun hmem => hid (hfills.selection.subset id hmem)
    rw [replica?_additions hknown, if_neg (fun hboth => hpassed hboth.1), h.old id hid]
  · rw [replica?_additions hknown]
    by_cases hadded : id ∈ filled.2 ∧ p = q
    · rw [if_pos hadded, ← hadded.2]
      exact Or.inr ⟨partition, once, rfl⟩
    · rw [if_neg hadded]
      rcases h.fresh id hid q with hnone | ⟨hq, hdone, hsome⟩
      · exact Or.inl hnone
      · exact Or.inr ⟨hq, fun hlater => hdone (List.mem_cons_of_mem p hlater), hsome⟩
  · rw [replicaCount_additions hfills.selection.nodup hknown hfree, h.replicaCount]
    by_cases hq : p = q
    · subst hq
      simp only [List.mem_cons_self, not_true_eq_false, and_false, if_false, if_true, partition,
        once, not_false_eq_true, and_self, hlength]
      omega
    · simp [hq, Ne.symm hq]

/-- The joins that complete the remaining partitions pass, for each of these has a host. -/
theorem complete (h : Growing t new replicationFactor rest load u) (distinct : new.Nodup)
    (unknown : ∀ id ∈ new, t.status? id = none) (once : rest.Nodup)
    (partitions : ∀ p ∈ rest, p ∈ t.partitions) :
    u.Passes settings (completePartitions t replicationFactor rest load) ∧
      ∃ load', Growing t new replicationFactor [] load'
        (u.performAll (completePartitions t replicationFactor rest load)) := by
  -- By induction on the partitions, with the topology and the load that the earlier ones leave.
  induction rest generalizing u load with
  | nil => exact ⟨passes_nil, load, h⟩
  | cons p rest ih =>
      rcases List.nodup_cons.1 once with ⟨honce, hrest⟩
      rcases List.forall_mem_cons.1 partitions with ⟨hpartition, hpartitions⟩
      let filled := Load.fill ∅ (replicationFactor - (t.priorities p).size) load []
      have hfills := Load.fills_fill distinct ∅ (replicationFactor - (t.priorities p).size) h.lists
      have hadded :
          u.Passes settings (additions p (newcomerPriority (t.priorities p)) filled.2) :=
        h.passes unknown hpartition hfills.1.selection
      rcases ih (h.fill distinct hpartition honce) hrest hpartitions with ⟨hpasses, load', hgrown⟩
      refine ⟨hadded.append hpasses, load', ?_⟩
      rw [completePartitions, performAll_append]
      exact hgrown

end Growing

/-! ## The whole plan -/

theorem growing_joined (settings : Settings) (distinct : new.Nodup)
    (unknown : ∀ id ∈ new, t.status? id = none) :
    let joins := new.map (⟨·, .joinCluster⟩)
    t.Passes settings joins ∧
      Growing t new replicationFactor t.partitions (.idle new) (t.performAll joins) := by
  intro joins
  rcases exists_replay_joinCluster settings distinct unknown with
    ⟨joined, hreplay, hstatus, hreplica⟩
  have halike := alike_performAll_of_replay hreplay
  refine ⟨⟨joined, hreplay⟩, Growing.alike ?_ halike.symm⟩
  have hempty : ∀ id ∈ new, ∀ p, joined.replica? id p = none := fun id hid p => by
    rw [hreplica, replica?_eq_none_of_absent (unknown id hid)]
  refine ⟨Load.lists_idle new, Load.level_idle new, fun id hid => ?_, hstatus,
    fun id _ p => hreplica id p, fun id hid p => Or.inl (hempty id hid p), fun p => ?_⟩
  · have hnothing : joined.hosting id = ∅ := by
      ext p
      simp [mem_hosting_iff, hempty id hid p]
    rw [Load.count_idle, hnothing, Finset.card_empty]
  · rw [if_neg (fun h => h.2 h.1)]
    exact replicaCount_congr fun id => by rw [hreplica]

/-- The operation has a newcomer join the cluster or a partition. -/
def Enlists (new : List MemberId) (op : Operation) : Prop :=
  op.member ∈ new ∧ ∀ p, ¬ op.Overwrites p

theorem enlists_of_mem_completePartitions (distinct : new.Nodup) (partitions : List PartitionId) :
    ∀ {load : Load}, load.Lists new →
      ∀ op ∈ completePartitions t replicationFactor partitions load, Enlists new op := by
  induction partitions with
  | nil =>
      intro load lists op hop
      cases hop
  | cons p rest ih =>
      intro load lists op hop
      have hfills :=
        (Load.fills_fill distinct ∅ (replicationFactor - (t.priorities p).size) lists).1
      rcases List.mem_append.1 hop with hadded | hrest
      · rcases List.mem_map.1 hadded with ⟨m, hm, rfl⟩
        exact ⟨hfills.selection.subset m hm, by simp [Operation.Overwrites]⟩
      · exact ih hfills.lists op hrest

/-- Without newcomers neither part of the plan has an operation. -/
theorem addMembers_eq (members : List MemberId) (replicationFactor : Nat) (t : Topology) :
    addMembers members replicationFactor t =
      .ok ((newcomers t (sortDistinct members)).map (⟨·, .joinCluster⟩) ++
        completePartitions t replicationFactor t.partitions
          (.idle (newcomers t (sortDistinct members)))) := by
  have hplan : addMembers members replicationFactor t =
      let new := newcomers t (sortDistinct members)
      if new.isEmpty then .ok []
      else .ok (new.map (⟨·, .joinCluster⟩) ++
        completePartitions t replicationFactor t.partitions (.idle new)) := rfl
  by_cases hnone : newcomers t (sortDistinct members) = []
  · have hnothing : completePartitions t replicationFactor t.partitions (.idle []) = [] := by
      refine List.eq_nil_iff_forall_not_mem.2 fun op hop => ?_
      have henlists := enlists_of_mem_completePartitions List.nodup_nil _ (Load.lists_idle []) op hop
      exact absurd henlists.1 List.not_mem_nil
    simp [hplan, hnone, hnothing]
  · simp [hplan, hnone]

theorem enlists_of_mem_addMembers
    (plan : addMembers members replicationFactor t = .ok operations) :
    ∀ op ∈ operations, Enlists (newcomers t (sortDistinct members)) op := by
  intro op hop
  rw [addMembers_eq, Except.ok.injEq] at plan
  rw [← plan] at hop
  rcases List.mem_append.1 hop with hjoin | hcomplete
  · rcases List.mem_map.1 hjoin with ⟨m, hm, rfl⟩
    exact ⟨hm, by simp [Operation.Overwrites]⟩
  · exact enlists_of_mem_completePartitions ((nodup_sortDistinct members).filter _) _
      (Load.lists_idle _) op hcomplete

/-- A plan that adds members passes all checks, and in the end each partition has got what it lacked
as far as there are newcomers. -/
theorem exists_growing (settings : Settings)
    (plan : addMembers members replicationFactor t = .ok operations) :
    t.Passes settings operations ∧
      ∃ load, Growing t (newcomers t (sortDistinct members)) replicationFactor [] load
        (t.performAll operations) := by
  have hdistinct : (newcomers t (sortDistinct members)).Nodup :=
    (nodup_sortDistinct members).filter _
  rw [addMembers_eq, Except.ok.injEq] at plan
  rcases growing_joined settings hdistinct unknown_of_mem_newcomers with ⟨hjoins, hjoined⟩
  rcases hjoined.complete hdistinct unknown_of_mem_newcomers (nodup_sortDistinct _)
    (fun _ hp => hp) with ⟨hcomplete, load, hgrown⟩
  rw [← plan, performAll_append]
  exact ⟨hjoins.append hcomplete, load, hgrown⟩

end Planner

end ReplicaCluster
