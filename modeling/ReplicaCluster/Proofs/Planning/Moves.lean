import ReplicaCluster.Planning.Reassignment
import ReplicaCluster.Proofs.Topology.Placement

/-!
# The moves from one placement to another

A plan of moves has one operation for each pair of a member and a partition on which the two
placements differ (`mem_moves_iff`), and none other.  No two of its operations are about the same
pair, and no join comes after a departure.
-/

namespace ReplicaCluster

namespace Operation

/-- The replica that an operation is about: a member and a partition, if there is one. -/
def site (op : Operation) : MemberId × Option PartitionId := (op.member, op.partition?)

def IsJoin (op : Operation) : Prop := ∃ p priority, op.action = .joinPartition p priority

def IsDeparture (op : Operation) : Prop := ∃ p, op.action = .leavePartition p

end Operation

theorem map_filterMap_sublist {α β γ : Type} {f : α → Option β} {g : β → γ} {h : α → γ}
    (hf : ∀ a b, f a = some b → g b = h a) (xs : List α) :
    ((xs.filterMap f).map g).Sublist (xs.map h) := by
  induction xs with
  | nil => exact .refl _
  | cons a rest ih =>
      cases hfa : f a with
      | none => simpa [hfa] using ih.cons (h a)
      | some b => simpa [hfa, hf a b hfa] using ih.cons_cons (h a)

namespace Planner

open ReplicaCluster.Operation

/-- The operation that takes the replica of a partition on a member from one priority to another,
where `none` stands for no replica. -/
inductive Move (m : MemberId) (p : PartitionId) :
    Option Priority → Option Priority → Operation → Prop
  | join (priority : Priority) : Move m p none (some priority) ⟨m, .joinPartition p priority⟩
  | promote {old new : Priority} (changes : old ≠ new) :
      Move m p (some old) (some new) ⟨m, .setPriority p new⟩
  | depart (old : Priority) : Move m p (some old) none ⟨m, .leavePartition p⟩

theorem Move.site_eq {m : MemberId} {p : PartitionId} {before after : Option Priority}
    {op : Operation} (h : Move m p before after op) : op.site = (m, some p) := by
  cases h <;> rfl

theorem exists_move (m : MemberId) (p : PartitionId) {before after : Option Priority}
    (h : before ≠ after) : ∃ op, Move m p before after op := by
  cases before with
  | none =>
      cases after with
      | none => exact absurd rfl h
      | some priority => exact ⟨_, .join priority⟩
  | some old =>
      cases after with
      | none => exact ⟨_, .depart old⟩
      | some new => exact ⟨_, .promote fun heq => h (congrArg some heq)⟩

section Partition

variable {p : PartitionId} {present target : Priorities} {op : Operation}

theorem mem_joins_iff :
    op ∈ joins p present target ↔ ∃ m priority, present[m]? = none ∧ target[m]? = some priority ∧
      op = ⟨m, .joinPartition p priority⟩ := by
  simp only [joins, List.mem_filterMap, Prod.exists, Std.ExtTreeMap.mem_toList_iff_getElem?_eq_some,
    Std.ExtTreeMap.contains_eq_isSome_getElem?]
  refine exists_congr fun m => exists_congr fun priority => ?_
  cases present[m]? <;> simp [eq_comm]

theorem mem_promotions_iff :
    op ∈ promotions p present target ↔ ∃ m old new, present[m]? = some old ∧
      target[m]? = some new ∧ old ≠ new ∧ op = ⟨m, .setPriority p new⟩ := by
  simp only [promotions, List.mem_filterMap, Prod.exists,
    Std.ExtTreeMap.mem_toList_iff_getElem?_eq_some]
  constructor
  · rintro ⟨m, new, htarget, hop⟩
    cases hpresent : present[m]? with
    | none => simp [hpresent] at hop
    | some old =>
        have hchanges : old ≠ new := by
          intro hsame
          simp [hpresent, hsame] at hop
        exact ⟨m, old, new, hpresent, htarget, hchanges, by
          simpa [hpresent, hchanges, eq_comm] using hop⟩
  · rintro ⟨m, old, new, hpresent, htarget, hchanges, rfl⟩
    exact ⟨m, new, htarget, by simp [hpresent, hchanges]⟩

theorem mem_departures_iff :
    op ∈ departures p present target ↔ ∃ m old, present[m]? = some old ∧ target[m]? = none ∧
      op = ⟨m, .leavePartition p⟩ := by
  simp only [departures, List.mem_map, List.mem_filter, Std.ExtTreeMap.mem_keys,
    Std.ExtTreeMap.mem_iff_isSome_getElem?, Std.ExtTreeMap.contains_eq_isSome_getElem?]
  constructor
  · rintro ⟨m, ⟨hpresent, htarget⟩, rfl⟩
    rcases Option.isSome_iff_exists.1 hpresent with ⟨old, hold⟩
    have hnone : target[m]? = none := by
      cases hm : target[m]? with
      | none => rfl
      | some new => simp only [hm, Option.isSome_some, Bool.not_true, Bool.false_eq_true] at htarget
    exact ⟨m, old, hold, hnone, rfl⟩
  · rintro ⟨m, old, hold, htarget, rfl⟩
    exact ⟨m, ⟨by simp [hold], by simp [htarget]⟩, rfl⟩

/-- The three kinds of moves together are one for each member whose priority changes. -/
theorem mem_kinds_iff :
    ((op ∈ joins p present target ∨ op ∈ promotions p present target) ∨
      op ∈ departures p present target) ↔ ∃ m, Move m p present[m]? target[m]? op := by
  rw [mem_joins_iff, mem_promotions_iff, mem_departures_iff]
  constructor
  · rintro ((⟨m, priority, hpresent, htarget, rfl⟩ |
      ⟨m, old, new, hpresent, htarget, hchanges, rfl⟩) | ⟨m, old, hpresent, htarget, rfl⟩)
    · exact ⟨m, by simpa only [hpresent, htarget] using Move.join priority⟩
    · exact ⟨m, by simpa only [hpresent, htarget] using Move.promote hchanges⟩
    · exact ⟨m, by simpa only [hpresent, htarget] using Move.depart old⟩
  · rintro ⟨m, hmove⟩
    generalize hpresent : present[m]? = before at hmove
    generalize htarget : target[m]? = after at hmove
    cases hmove with
    | join priority => exact Or.inl (Or.inl ⟨m, priority, hpresent, htarget, rfl⟩)
    | promote changes => exact Or.inl (Or.inr ⟨m, _, _, hpresent, htarget, changes, rfl⟩)
    | depart old => exact Or.inr ⟨m, old, hpresent, htarget, rfl⟩

/-- Each of the three kinds of moves goes through the members once. -/
theorem sites_sublist (p : PartitionId) (present target : Priorities) :
    ((joins p present target).map site).Sublist (target.keys.map fun m => (m, some p)) ∧
      ((promotions p present target).map site).Sublist (target.keys.map fun m => (m, some p)) ∧
      ((departures p present target).map site).Sublist (present.keys.map fun m => (m, some p)) := by
  have hkeys : target.keys.map (fun m => (m, some p)) =
      target.toList.map fun e => (e.1, some p) := by
    rw [← Std.ExtTreeMap.map_fst_toList_eq_keys, List.map_map]
    rfl
  rw [hkeys]
  refine ⟨map_filterMap_sublist ?_ _, map_filterMap_sublist ?_ _, ?_⟩
  · intro e op hop
    have hop' : e.1 ∉ present ∧ ⟨e.1, .joinPartition p e.2⟩ = op := by
      simpa using hop
    rw [← hop'.2]
    rfl
  · intro e op hop
    cases hpresent : present[e.1]? with
    | none => simp [hpresent] at hop
    | some old =>
        have hop' : old ≠ e.2 ∧ ⟨e.1, .setPriority p e.2⟩ = op := by
          simpa [hpresent] using hop
        rw [← hop'.2]
        rfl
  · simpa [departures, Function.comp_def, site, Operation.partition?, Action.partition?] using
      (List.filter_sublist (l := present.keys)).map fun m => (m, some p)

end Partition

/-! ## All partitions -/

/-- The operations of one kind, partition by partition. -/
def each (f : PartitionId → Priorities → Priorities → List Operation) (current target : Placement) :
    List Operation :=
  target.toList.flatMap fun (p, hosts) => f p (current.getD p ∅) hosts

theorem moves_eq (current target : Placement) :
    moves current target =
      each joins current target ++ each promotions current target ++
        each departures current target := rfl

variable {f : PartitionId → Priorities → Priorities → List Operation} {current target : Placement}
  {op : Operation}

theorem mem_each_iff :
    op ∈ each f current target ↔
      ∃ p hosts, target[p]? = some hosts ∧ op ∈ f p (current.getD p ∅) hosts := by
  simp [each, Std.ExtTreeMap.mem_toList_iff_getElem?_eq_some]

theorem nodup_each
    (sites : ∀ p present target, ∃ ms : List MemberId, ms.Nodup ∧
      ((f p present target).map site).Sublist (ms.map fun m => (m, some p))) :
    ((each f current target).map site).Nodup := by
  rw [each, List.map_flatMap, List.nodup_flatMap]
  refine ⟨fun e _ => ?_, ?_⟩
  · rcases sites e.1 (current.getD e.1 ∅) e.2 with ⟨ms, hms, hsublist⟩
    refine List.Nodup.sublist hsublist (hms.map fun m m' h => ?_)
    exact (Prod.mk.inj h).1
  · -- Sites of different partitions differ.
    refine target.distinct_keys_toList.imp fun {e e'} hne => ?_
    rcases sites e.1 (current.getD e.1 ∅) e.2 with ⟨ms, -, hsublist⟩
    rcases sites e'.1 (current.getD e'.1 ∅) e'.2 with ⟨ms', -, hsublist'⟩
    intro x hx hx'
    rcases List.mem_map.1 (hsublist.subset hx) with ⟨m, -, rfl⟩
    rcases List.mem_map.1 (hsublist'.subset hx') with ⟨m', -, heq⟩
    have hpartition : e'.1 = e.1 := Option.some.inj (Prod.mk.inj heq).2
    exact hne (by simp [hpartition])

theorem mem_moves_iff :
    op ∈ moves current target ↔
      ∃ p m, p ∈ target ∧ Move m p (current.priority? p m) (target.priority? p m) op := by
  have hkinds : op ∈ moves current target ↔ ∃ p hosts, target[p]? = some hosts ∧
      ∃ m, Move m p (current.getD p ∅)[m]? hosts[m]? op := by
    simp only [moves_eq, List.mem_append, mem_each_iff, ← mem_kinds_iff, and_or_left, exists_or]
  rw [hkinds]
  refine exists_congr fun p => ?_
  constructor
  · rintro ⟨hosts, hhosts, m, hmove⟩
    refine ⟨m, SortedMap.mem_iff_exists.2 ⟨_, hhosts⟩, ?_⟩
    rwa [Placement.getElem?_getD, ← Placement.priority?_of_getElem? hhosts] at hmove
  · rintro ⟨m, hp, hmove⟩
    rcases SortedMap.mem_iff_exists.1 hp with ⟨hosts, hhosts⟩
    rw [← Placement.getElem?_getD, Placement.priority?_of_getElem? hhosts] at hmove
    exact ⟨hosts, hhosts, m, hmove⟩

theorem site_of_mem_joins (h : op ∈ each joins current target) :
    op.IsJoin ∧ ∃ m p, op.site = (m, some p) ∧ current.priority? p m = none := by
  rcases mem_each_iff.1 h with ⟨p, hosts, -, hop⟩
  rcases mem_joins_iff.1 hop with ⟨m, priority, hpresent, -, rfl⟩
  exact ⟨⟨p, priority, rfl⟩, m, p, rfl, by rw [← Placement.getElem?_getD, hpresent]⟩

theorem site_of_mem_promotions (h : op ∈ each promotions current target) :
    ¬ op.IsJoin ∧ ¬ op.IsDeparture ∧ ∃ m p old new, op.site = (m, some p) ∧
      current.priority? p m = some old ∧ target.priority? p m = some new := by
  rcases mem_each_iff.1 h with ⟨p, hosts, hhosts, hop⟩
  rcases mem_promotions_iff.1 hop with ⟨m, old, new, hpresent, htarget, -, rfl⟩
  refine ⟨by simp [IsJoin], by simp [IsDeparture], m, p, old, new, rfl, ?_, ?_⟩
  · rw [← Placement.getElem?_getD, hpresent]
  · rw [Placement.priority?_of_getElem? hhosts, htarget]

theorem site_of_mem_departures (h : op ∈ each departures current target) :
    op.IsDeparture ∧ ∃ m p old, op.site = (m, some p) ∧ current.priority? p m = some old ∧
      target.priority? p m = none := by
  rcases mem_each_iff.1 h with ⟨p, hosts, hhosts, hop⟩
  rcases mem_departures_iff.1 hop with ⟨m, old, hpresent, htarget, rfl⟩
  refine ⟨⟨p, rfl⟩, m, p, old, rfl, ?_, ?_⟩
  · rw [← Placement.getElem?_getD, hpresent]
  · rw [Placement.priority?_of_getElem? hhosts, htarget]

/-- No two moves are about the same replica. -/
theorem nodup_sites_moves (current target : Placement) :
    ((moves current target).map site).Nodup := by
  have hjoins : ((each joins current target).map site).Nodup :=
    nodup_each fun p present target =>
      ⟨target.keys, Std.ExtTreeMap.nodup_keys, (sites_sublist p present target).1⟩
  have hpromotions : ((each promotions current target).map site).Nodup :=
    nodup_each fun p present target =>
      ⟨target.keys, Std.ExtTreeMap.nodup_keys, (sites_sublist p present target).2.1⟩
  have hdepartures : ((each departures current target).map site).Nodup :=
    nodup_each fun p present target =>
      ⟨present.keys, Std.ExtTreeMap.nodup_keys, (sites_sublist p present target).2.2⟩
  rw [moves_eq, List.map_append, List.map_append]
  refine (hjoins.append hpromotions ?_).append hdepartures ?_
  · -- One is joined where there is no replica, the other one changed where there is one.
    intro x hx hx'
    rcases List.mem_map.1 hx with ⟨op, hop, rfl⟩
    rcases List.mem_map.1 hx' with ⟨op', hop', hsite⟩
    rcases site_of_mem_joins hop with ⟨-, m, p, hmp, hnone⟩
    rcases site_of_mem_promotions hop' with ⟨-, -, m', p', old, new, hmp', hsome, -⟩
    rw [hmp, hmp'] at hsite
    cases hsite
    simp [hnone] at hsome
  · -- Nothing departs where the target has a replica or there is none before.
    intro x hx hx'
    rcases List.mem_map.1 hx' with ⟨op', hop', rfl⟩
    rcases site_of_mem_departures hop' with ⟨-, m', p', old, hmp', hsome, hgone⟩
    rcases List.mem_append.1 hx with hx | hx
    · rcases List.mem_map.1 hx with ⟨op, hop, hsite⟩
      rcases site_of_mem_joins hop with ⟨-, m, p, hmp, hnone⟩
      rw [hmp, hmp'] at hsite
      cases hsite
      simp [hnone] at hsome
    · rcases List.mem_map.1 hx with ⟨op, hop, hsite⟩
      rcases site_of_mem_promotions hop with ⟨-, -, m, p, old', new, hmp, -, hstays⟩
      rw [hmp, hmp'] at hsite
      cases hsite
      simp [hgone] at hstays

/-- All joins come before all departures. -/
theorem pairwise_moves (current target : Placement) :
    (moves current target).Pairwise fun a b => a.IsDeparture → ¬ b.IsJoin := by
  have hstays : ∀ op ∈ each joins current target ++ each promotions current target,
      ¬ op.IsDeparture := by
    intro op hop
    rcases List.mem_append.1 hop with hjoin | hpromotion
    · rcases (site_of_mem_joins hjoin).1 with ⟨p, priority, haction⟩
      simp [IsDeparture, haction]
    · exact (site_of_mem_promotions hpromotion).2.1
  have hleaves : ∀ op ∈ each departures current target, ¬ op.IsJoin := by
    intro op hop
    rcases (site_of_mem_departures hop).1 with ⟨p, haction⟩
    simp [IsJoin, haction]
  rw [moves_eq]
  refine List.pairwise_append.2 ⟨?_, ?_, ?_⟩
  · exact List.pairwise_of_forall_mem_list fun a ha _ _ hdeparture => absurd hdeparture (hstays a ha)
  · exact List.pairwise_of_forall_mem_list fun _ _ b hb _ => hleaves b hb
  · exact fun _ _ b hb _ => hleaves b hb

end Planner

end ReplicaCluster
