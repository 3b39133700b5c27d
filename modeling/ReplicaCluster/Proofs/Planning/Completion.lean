import ReplicaCluster.Proofs.Planning.Stability

/-!
# Where a completed resettlement leads

Whatever the cluster is like, once the operations of a resettlement are carried out, the partitions
are where rebalancing wants them, and the members are those that are wanted
(`Planner.completed_of_replay`).  The moves go by the priorities alone, so it does not matter which
status the replicas were in.
-/

namespace ReplicaCluster

theorem foldl_eq_self {α σ : Type} {f : σ → α → σ} {xs : List α} (idle : ∀ x ∈ xs, ∀ s, f s x = s)
    (s : σ) : xs.foldl f s = s := by
  induction xs with
  | nil => rfl
  | cons x rest ih =>
      rcases List.forall_mem_cons.1 idle with ⟨hx, hrest⟩
      rw [List.foldl_cons, hx, ih hrest]

namespace Planner

open ReplicaCluster.Operation ReplicaCluster.Topology

variable {settings : Settings} {t final : Topology} {current target : Placement}
  {desired unwanted : List MemberId} {replicationFactor : Nat} {m id : MemberId} {p : PartitionId}
  {before after : Option Priority} {op : Operation}

/-! ## Effects of moves -/

theorem Move.priority_eq (h : Move m p before after op) {r : Option Replica}
    (hr : r.map (·.priority) = before) :
    (op.confirms m p (op.marks m p r)).map (·.priority) = after := by
  cases h with
  | join priority => simp [marks, confirms, Replica.joining]
  | promote changes =>
      rcases Option.map_eq_some_iff.1 hr with ⟨old, rfl, -⟩
      simp [marks, confirms]
  | depart old => simp [confirms]

theorem status_foldl_moves (id : MemberId) (s : Option Status) :
    (moves current target).foldl (fun s op => op.confirmsStatus id (op.marksStatus id s)) s = s :=
  foldl_eq_self (fun op hop s => by
    rcases mem_moves_iff.1 hop with ⟨p, m, -, hmove⟩
    exact hmove.status_eq id s) s

/-- Each move takes its replica to the priority that it has in the new placement, and no other move
is about the same replica. -/
theorem priority_foldl_moves (partitions : ∀ p, p ∈ target ↔ p ∈ current) {r : Option Replica}
    (hr : r.map (·.priority) = current.priority? p id) :
    ((moves current target).foldl (fun r op => op.confirms id p (op.marks id p r)) r).map
      (·.priority) = target.priority? p id := by
  have hother : ∀ op ∈ moves current target, op.site ≠ (id, some p) →
      ∀ r, op.confirms id p (op.marks id p r) = r := by
    intro op hop hsite r
    rcases mem_moves_iff.1 hop with ⟨q, m, -, hmove⟩
    refine hmove.replica_eq_of_ne ?_ r
    intro heq
    cases heq
    exact hsite hmove.site_eq
  by_cases hsite : (id, some p) ∈ (moves current target).map site
  · rcases List.mem_map.1 hsite with ⟨op, hop, hown⟩
    rcases mem_moves_iff.1 hop with ⟨q, m, -, hmove⟩
    rw [hmove.site_eq] at hown
    cases hown
    rcases List.append_of_mem hop with ⟨earlier, later, hmoves⟩
    have hsites := nodup_sites_moves current target
    rw [hmoves, List.map_append, List.map_cons, List.nodup_middle, List.nodup_cons,
      ← List.map_append] at hsites
    have hidle : ∀ op' ∈ earlier ++ later, ∀ r, op'.confirms id p (op'.marks id p r) = r := by
      intro op' hop' r
      refine hother op' ?_ (fun heq => hsites.1 (List.mem_map.2 ⟨op', hop', ?_⟩)) r
      · rw [hmoves]
        rcases List.mem_append.1 hop' with hearlier | hlater
        · exact List.mem_append_left _ hearlier
        · exact List.mem_append_right _ (List.mem_cons_of_mem op hlater)
      · rw [heq, hmove.site_eq]
    rw [hmoves, List.foldl_append, List.foldl_cons,
      foldl_eq_self fun op' hop' => hidle op' (List.mem_append_left _ hop'),
      foldl_eq_self fun op' hop' => hidle op' (List.mem_append_right _ hop')]
    exact hmove.priority_eq hr
  · have hnone : ∀ op ∈ moves current target, op.site ≠ (id, some p) := fun op hop heq =>
      hsite (List.mem_map.2 ⟨op, hop, heq⟩)
    rw [foldl_eq_self fun op hop => hother op hop (hnone op hop), hr]
    exact priority?_eq_of_no_move partitions hsite

/-! ## Effects of joins and departures -/

theorem status_foldl_members (action : Action) (outcome : Option Status)
    (status : ∀ m id s, (⟨m, action⟩ : Operation).confirmsStatus id
      ((⟨m, action⟩ : Operation).marksStatus id s) = if m = id then outcome else s)
    (ids : List MemberId) (id : MemberId) :
    ∀ s, (ids.map (⟨·, action⟩ : MemberId → Operation)).foldl
      (fun s op => op.confirmsStatus id (op.marksStatus id s)) s =
        if id ∈ ids then outcome else s := by
  induction ids with
  | nil => simp
  | cons m rest ih =>
      intro s
      rw [List.map_cons, List.foldl_cons, status, ih]
      by_cases hm : m = id
      · simp [hm]
      · simp [hm, Ne.symm hm]

/-! ## The end -/

/-- The members and the priorities at the end of a resettlement. -/
structure Completed (t : Topology) (desired : List MemberId) (replicationFactor : Nat)
    (unwanted : List MemberId) (final : Topology) : Prop where
  status? : ∀ id, final.status? id = if id ∈ unwanted then none
    else if id ∈ newcomers t desired then some .active else t.status? id
  priority : ∀ id p, (final.replica? id p).map (·.priority) =
    (t.placement.rebalance desired replicationFactor).priority? p id

theorem completed_of_replay (positive : 1 ≤ replicationFactor)
    (enough : replicationFactor ≤ desired.dedup.length)
    (h : Replay settings t (resettlement t desired replicationFactor unwanted) final) :
    Completed t desired replicationFactor unwanted final := by
  have hnonempty := ne_nil_of_enough positive enough
  have hpartitions := (t.placement.rebalance_selects hnonempty enough).1
  refine ⟨fun id => ?_, fun id p => ?_⟩
  · have hjoins := status_foldl_members .joinCluster (some .active)
      (fun m id s => by by_cases hm : m = id <;> simp [confirmsStatus, marksStatus, hm])
    have hleaves := status_foldl_members .leaveCluster none
      (fun m id s => by by_cases hm : m = id <;> simp [confirmsStatus, marksStatus, hm])
    rw [h.status?_eq_foldl, resettlement, List.foldl_append, List.foldl_append, hjoins,
      status_foldl_moves, hleaves]
  · have hidle : ∀ (action : Action) (ids : List MemberId),
        action = .joinCluster ∨ action = .leaveCluster → ∀ r,
        (ids.map (⟨·, action⟩ : MemberId → Operation)).foldl
          (fun r op => op.confirms id p (op.marks id p r)) r = r := by
      intro action ids haction
      refine foldl_eq_self fun op hop r => ?_
      rcases List.mem_map.1 hop with ⟨m, -, rfl⟩
      rcases haction with rfl | rfl <;> rfl
    rw [h.replica?_eq_foldl, resettlement, List.foldl_append, List.foldl_append,
      hidle .joinCluster _ (Or.inl rfl), hidle .leaveCluster _ (Or.inr rfl)]
    exact priority_foldl_moves hpartitions priority?_placement.symm

namespace Completed

variable {u : Topology}

theorem alike (h : Completed t desired replicationFactor unwanted final) (like : u.Alike final) :
    Completed t desired replicationFactor unwanted u :=
  ⟨fun id => (like.status? id).trans (h.status? id),
    fun id p => by rw [like.replica?, h.priority]⟩

theorem placement_eq (h : Completed t desired replicationFactor unwanted final)
    (positive : 1 ≤ replicationFactor) (enough : replicationFactor ≤ desired.dedup.length) :
    final.placement = t.placement.rebalance desired replicationFactor := by
  have hnonempty := ne_nil_of_enough positive enough
  refine Topology.placement_eq (fun p hp => ?_) h.priority
  rcases SortedMap.mem_iff_exists.1 hp with ⟨hosts, hhosts⟩
  have hnumbered := (t.placement.regular_rebalance hnonempty enough).numbered p hosts hhosts
  rcases (hnumbered.exists_host_iff 1).2 ⟨le_refl 1, positive⟩ with ⟨m, hm⟩
  exact ⟨m, by simp [Placement.priority?_of_getElem? hhosts, hm]⟩

end Completed

/-- When a resettlement is completed, its members are the ones that it was asked for. -/
theorem Resettles.again {members ids : List MemberId} {planner : Planner} {u : Topology}
    (h : Resettles t members replicationFactor planner ids)
    (same : ∀ id, u.hasMember id ↔ id ∈ ids) :
    ∃ ids', Resettles u members replicationFactor planner ids' ∧
      ∀ id, id ∈ ids' ↔ u.hasMember id := by
  cases h with
  | reassign known =>
      refine ⟨u.members.keys, .reassign fun m hm => (same m).2 ?_, fun id => ?_⟩
      · rw [Std.ExtTreeMap.mem_keys, Std.ExtTreeMap.mem_iff_contains]
        exact known m hm
      · rw [Std.ExtTreeMap.mem_keys, Std.ExtTreeMap.mem_iff_contains, hasMember]
  | scale => exact ⟨members, .scale, fun id => (same id).symm⟩

/-- Asked again, a completed resettlement has nothing to do just if its placement is settled. -/
theorem Completed.plan_eq_nil_iff {members ids : List MemberId} {planner : Planner}
    (h : Completed t (sortDistinct members) replicationFactor unwanted final)
    (resettles : Resettles t members replicationFactor planner ids)
    (hids : ∀ id, id ∈ ids ↔ id ∉ unwanted ∧ (t.hasMember id ∨ id ∈ sortDistinct members))
    (positive : 1 ≤ replicationFactor)
    (enough : replicationFactor ≤ (sortDistinct members).length) :
    planner final = .ok [] ↔
      final.placement.Settled (sortDistinct members) replicationFactor := by
  have hnonempty : sortDistinct members ≠ [] := List.ne_nil_of_length_pos (by omega)
  have hdistinct : replicationFactor ≤ (sortDistinct members).dedup.length := by
    rwa [(nodup_sortDistinct members).dedup]
  have hmembers : ∀ id, final.hasMember id ↔ id ∈ ids := fun id =>
    (hasMember_iff_of_status h.status?).trans (hids id).symm
  have hregular : final.placement.Regular (sortDistinct members) replicationFactor := by
    rw [h.placement_eq positive hdistinct]
    exact t.placement.regular_rebalance hnonempty hdistinct
  rcases resettles.again hmembers with ⟨ids', hagain, hsame⟩
  rw [hagain.plan_eq_nil_iff positive enough hsame]
  exact Placement.rebalance_eq_self_iff hregular hnonempty hdistinct

end Planner

end ReplicaCluster
