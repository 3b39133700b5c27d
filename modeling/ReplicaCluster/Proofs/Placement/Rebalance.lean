import ReplicaCluster.Placement.Rebalance
import ReplicaCluster.Proofs.Execution.Effects
import ReplicaCluster.Proofs.Placement.Balance
import ReplicaCluster.Proofs.Placement.Share

/-!
# Rebalancing, turn by turn

Both passes of rebalancing treat one partition after the other, each under the load that the ones
before it leave (`Placement.Pass`).  In the first pass a partition keeps its first hosts that are
members and below their fair share (`Placement.Keeps`).  In the second one it is handed to the
members of the least load until it has all the hosts that it needs (`Placement.Completes`).  Both
together account for the target placement (`Placement.exists_account`).

So the target has the same partitions, each on the right number of distinct members
(`Placement.rebalance_selects`).
-/

namespace ReplicaCluster

/-- A map that is made from a list in the order of its keys has that very listing. -/
theorem SortedMap.toList_ofList {κ α : Type} [Ord κ] [Std.TransOrd κ] [Std.LawfulEqOrd κ] [BEq κ]
    [LawfulBEq κ] {l : List (κ × α)} (ordered : l.Pairwise fun a b => compare a.1 b.1 = .lt) :
    (Std.ExtTreeMap.ofList l compare).toList = l := by
  have hdiffer : ∀ {a b : κ}, compare a b = .lt → a ≠ b := by
    rintro a _ hlt rfl
    simp at hlt
  have hdistinct : (l.map (·.1)).Nodup := List.pairwise_map.2 (ordered.imp hdiffer)
  have hentries : l.Nodup := List.Nodup.of_map (·.1) hdistinct
  have hlisted : (Std.ExtTreeMap.ofList l compare).toList.Nodup :=
    (Std.ExtTreeMap.ofList l compare).distinct_keys_toList.imp
      fun hkeys heq => hkeys (by simp [heq])
  have hperm : (Std.ExtTreeMap.ofList l compare).toList.Perm l := by
    refine (List.perm_ext_iff_of_nodup hlisted hentries).2 fun ⟨k, v⟩ => ?_
    rw [Std.ExtTreeMap.mem_toList_iff_getElem?_eq_some, getElem?_ofList_iff hdistinct]
  -- Both lists are sorted by their keys, and sorted lists of the same elements are the same.
  refine hperm.eq_of_pairwise (fun a b _ _ hab hba => ?_)
    Std.ExtTreeMap.ordered_keys_toList ordered
  exact absurd (Std.OrientedCmp.gt_of_lt hab) (by simp [hba])

namespace Placement

variable {members kept : List MemberId} {replicationFactor share : Nat} {present : Priorities}
  {m : MemberId}

theorem isSome_rank {chosen : List MemberId} : ((rank present chosen)[m]?).isSome ↔ m ∈ chosen := by
  rw [rank, Priorities.isSome_descending]
  by_cases hpresent : m ∈ present
  · simp [Priorities.mem_ranked_iff, hpresent]
  · have hcontains : present.contains m = false := SortedMap.contains_eq_false_iff.2 hpresent
    simp [Priorities.mem_ranked_iff, hpresent, hcontains]

/-! ## Passes -/

section Pass

variable {α β : Type} {step : Load → α → Load → Prop} {base final : Load}

/-- One item after the other is treated, each under the load that the ones before it leave. -/
inductive Pass (step : Load → α → Load → Prop) : Load → List α → Load → Prop
  | nil {load : Load} : Pass step load [] load
  | cons {base load final : Load} {item : α} {rest : List α} (first : step base item load)
      (tail : Pass step load rest final) : Pass step base (item :: rest) final

namespace Pass

theorem map {f : β → α} {items : List β} (h : Pass step base (items.map f) final) :
    Pass (fun base item load => step base (f item) load) base items final := by
  induction items generalizing base with
  | nil =>
      cases h
      exact .nil
  | cons item rest ih =>
      cases h with
      | cons first tail => exact .cons first (ih tail)

/-- The treatment of one item, between those of the items before and after it. -/
theorem split {before after : List α} {item : α}
    (h : Pass step base (before ++ item :: after) final) :
    ∃ load next, Pass step base before load ∧ step load item next ∧ Pass step next after final := by
  induction before generalizing base with
  | nil =>
      cases h with
      | cons first tail => exact ⟨base, _, .nil, first, tail⟩
  | cons other rest ih =>
      cases h with
      | cons first tail =>
          rcases ih tail with ⟨load, next, hbefore, hitem, hafter⟩
          exact ⟨load, next, .cons first hbefore, hitem, hafter⟩

theorem exists_step {items : List α} {item : α} (h : Pass step base items final)
    (hitem : item ∈ items) : ∃ load next, step load item next := by
  rcases List.append_of_mem hitem with ⟨before, after, rfl⟩
  rcases h.split with ⟨load, next, -, hstep, -⟩
  exact ⟨load, next, hstep⟩

theorem invariant {P : Load → Prop} {items : List α}
    (preserved : ∀ base item load, step base item load → P base → P load)
    (h : Pass step base items final) (start : P base) : P final := by
  induction h with
  | nil => exact start
  | @cons base load final item rest first tail ih => exact ih (preserved base item load first start)

/-- Where each item counts one replica for each of some members, the pass counts as many for a
member as there are items that do so. -/
theorem count {items : List α} (gains : α → List MemberId)
    (gain : ∀ base item load, step base item load →
      ∀ m, load.count m = base.count m + if m ∈ gains item then 1 else 0)
    (h : Pass step base items final) (m : MemberId) :
    final.count m = base.count m + items.countP (m ∈ gains ·) := by
  induction h with
  | nil => simp
  | @cons base load final item rest first tail ih =>
      rw [ih, gain base item load first m, List.countP_cons]
      simp only [decide_eq_true_eq]
      omega

end Pass

end Pass

/-! ## The first pass -/

/-- A partition keeps its first hosts that are members and below their fair share, as many as it
needs. -/
structure Keeps (members : List MemberId) (replicationFactor share : Nat) (base : Load)
    (row : PartitionId × Priorities × List MemberId) (load : Load) : Prop where
  lists : load.Lists members
  kept : row.2.2 = (row.2.1.ranked.filter fun m =>
    m ∈ members ∧ base.count m < share).take replicationFactor
  count : ∀ m, load.count m = base.count m + if m ∈ row.2.2 then 1 else 0

theorem keepReplica_eq {load : Load} (lists : load.Lists members) :
    keepReplica replicationFactor share (load, kept) m =
      if (m ∈ members ∧ load.count m < share) ∧ kept.length < replicationFactor then
        (load.increment m, kept ++ [m])
      else (load, kept) := by
  cases hload : load[m]? with
  | none =>
      have hunknown : m ∉ members := by
        rw [← lists m, Std.ExtTreeMap.mem_iff_isSome_getElem?]
        simp [hload]
      simp [keepReplica, hload, hunknown]
  | some count =>
      have hmember : m ∈ members :=
        (lists m).1 (SortedMap.mem_iff_exists.2 ⟨_, hload⟩)
      simp [keepReplica, hload, hmember, Load.count_of_getElem? hload, and_comm]

/-- A replica more on one host does not change which of the other hosts are candidates. -/
theorem filter_increment {load : Load} {others : List MemberId} (listed : m ∈ load)
    (absent : m ∉ others) :
    others.filter (fun other => decide
        (other ∈ members ∧ (load.increment m).count other < share)) =
      others.filter fun other => decide (other ∈ members ∧ load.count other < share) := by
  refine List.filter_congr fun other hother => ?_
  have hne : m ≠ other := by
    rintro rfl
    exact absent hother
  rw [Load.count_increment listed, if_neg hne, Nat.add_zero]

theorem foldl_keepReplica (replicationFactor share : Nat) (ranked : List MemberId) :
    ∀ (load : Load) (kept : List MemberId), load.Lists members → ranked.Nodup →
      let stay := (ranked.filter fun m => m ∈ members ∧ load.count m < share).take
        (replicationFactor - kept.length)
      ∃ load', ranked.foldl (keepReplica replicationFactor share) (load, kept) =
          (load', kept ++ stay) ∧
        load'.Lists members ∧ ∀ m, load'.count m = load.count m + if m ∈ stay then 1 else 0 := by
  induction ranked with
  | nil =>
      intro load kept lists _
      exact ⟨load, by simp, lists, by simp⟩
  | cons m rest ih =>
      intro load kept lists distinct
      rcases List.nodup_cons.1 distinct with ⟨hfresh, hrest⟩
      rw [List.foldl_cons, keepReplica_eq lists]
      by_cases hcandidate : m ∈ members ∧ load.count m < share
      · rw [List.filter_cons_of_pos (by simpa using hcandidate)]
        by_cases hplace : kept.length < replicationFactor
        · rw [if_pos ⟨hcandidate, hplace⟩]
          -- `m` takes the first of the places that are left, and the rest goes on with one less.
          have hlisted : m ∈ load := (lists m).2 hcandidate.1
          have hplaces : replicationFactor - kept.length =
              replicationFactor - (kept ++ [m]).length + 1 := by
            simp only [List.length_append, List.length_singleton]
            omega
          rcases ih (load.increment m) (kept ++ [m]) (lists.increment m) hrest with
            ⟨load', hfold, hlists, hload⟩
          rw [filter_increment hlisted hfresh] at hfold hload
          rw [hplaces, List.take_succ_cons]
          refine ⟨load', by simpa using hfold, hlists, fun other => ?_⟩
          rw [hload, Load.count_increment hlisted]
          by_cases hother : m = other
          · subst hother
            have hpassed : m ∉ (rest.filter fun other =>
                decide (other ∈ members ∧ load.count other < share)).take
                  (replicationFactor - (kept ++ [m]).length) := fun hmem =>
              hfresh (List.mem_filter.1 (List.mem_of_mem_take hmem)).1
            rw [if_pos rfl, if_neg hpassed, if_pos List.mem_cons_self]
          · simp [List.mem_cons, hother, Ne.symm hother]
        · -- Without a place left, being a candidate or not makes no difference.
          have hnone : replicationFactor - kept.length = 0 := by omega
          rw [if_neg fun h => hplace h.2, hnone]
          simpa [hnone] using ih load kept lists hrest
      · rw [if_neg fun h => hcandidate h.1, List.filter_cons_of_neg (by simpa using hcandidate)]
        exact ih load kept lists hrest

theorem keep_pass (replicationFactor share : Nat) (entries : List (PartitionId × Priorities)) :
    ∀ {load : Load}, load.Lists members →
      let kept := keep replicationFactor share entries load
      kept.2.Lists members ∧ kept.1.map (fun k => (k.1, k.2.1)) = entries ∧
        Pass (Keeps members replicationFactor share) load kept.1 kept.2 := by
  induction entries with
  | nil =>
      intro load lists
      exact ⟨lists, rfl, .nil⟩
  | cons e rest ih =>
      intro load lists
      rcases e with ⟨p, present⟩
      rcases foldl_keepReplica replicationFactor share present.ranked load [] lists
        present.nodup_ranked with ⟨load', hfold, hlists, hcount⟩
      rw [List.nil_append, List.length_nil, Nat.sub_zero] at hfold
      rcases ih hlists with ⟨hlists', hentries, hpass⟩
      simp only [keep, hfold, List.map_cons]
      exact ⟨hlists', by rw [hentries], .cons ⟨hlists, rfl, hcount⟩ hpass⟩

namespace Keeps

variable {base load : Load} {row : PartitionId × Priorities × List MemberId}

theorem sublist (h : Keeps members replicationFactor share base row load) :
    row.2.2.Sublist row.2.1.ranked := by
  rw [h.kept]
  exact (List.take_sublist _ _).trans List.filter_sublist

theorem candidate (h : Keeps members replicationFactor share base row load)
    (stays : m ∈ row.2.2) : m ∈ members ∧ base.count m < share := by
  rw [h.kept] at stays
  simpa using (List.mem_filter.1 (List.mem_of_mem_take stays)).2

theorem selection (h : Keeps members replicationFactor share base row load) :
    Selection members row.2.2 :=
  ⟨row.2.1.nodup_ranked.sublist h.sublist, fun _ hm => (h.candidate hm).1⟩

theorem length_le (h : Keeps members replicationFactor share base row load) :
    row.2.2.length ≤ replicationFactor := by
  rw [h.kept]
  exact List.length_take_le _ _

end Keeps

/-! ## The second pass -/

/-- What rebalancing does to one partition. -/
structure Turn where
  partition : PartitionId
  /-- The hosts of before. -/
  present : Priorities
  /-- Those of them that the first pass keeps. -/
  kept : List MemberId
  /-- The hosts that the second pass hands the partition to. -/
  handed : List MemberId

namespace Turn

def chosen (t : Turn) : List MemberId := t.kept ++ t.handed

def source (t : Turn) : PartitionId × Priorities := (t.partition, t.present)

def row (t : Turn) : PartitionId × Priorities × List MemberId := (t.partition, t.present, t.kept)

def result (t : Turn) : PartitionId × Priorities := (t.partition, rank t.present t.chosen)

end Turn

/-- A partition is handed over until it has all the hosts that it needs. -/
structure Completes (members : List MemberId) (replicationFactor : Nat) (base : Load) (turn : Turn)
    (load : Load) : Prop where
  hands : Load.Hands members turn.present turn.kept base load turn.handed
  full : turn.chosen.length = replicationFactor

theorem Pass.count_handed {turns : List Turn} {base final : Load}
    (h : Pass (Completes members replicationFactor) base turns final) (m : MemberId) :
    final.count m = base.count m + turns.countP (m ∈ ·.handed) :=
  h.count Turn.handed (fun _ _ _ hstep => hstep.hands.count) m

theorem fillAll_pass (enough : replicationFactor ≤ members.dedup.length)
    (rows : List (PartitionId × Priorities × List MemberId)) :
    ∀ {load : Load}, load.Lists members →
      (∀ row ∈ rows, Selection members row.2.2 ∧ row.2.2.length ≤ replicationFactor) →
      ∃ turns final, turns.map Turn.row = rows ∧
        fillAll replicationFactor rows load = turns.map Turn.result ∧
        Pass (Completes members replicationFactor) load turns final := by
  induction rows with
  | nil =>
      intro load lists selects
      exact ⟨[], load, rfl, rfl, .nil⟩
  | cons row rest ih =>
      intro load lists selects
      rcases row with ⟨p, present, kept⟩
      rcases List.forall_mem_cons.1 selects with ⟨⟨hselection, hfew⟩, hselects⟩
      simp only at hselection hfew
      rcases (Load.hands_nil present lists hselection).exists_fill
        (replicationFactor - kept.length) with ⟨next, handed, hfill, hhands, hlength⟩
      rw [List.append_nil] at hfill hlength
      rcases ih hhands.lists hselects with ⟨turns, final, hrows, hresults, hpass⟩
      refine ⟨⟨p, present, kept, handed⟩ :: turns, final, ?_, ?_, .cons ⟨hhands, ?_⟩ hpass⟩
      · rw [List.map_cons, hrows]
        rfl
      · simp only [fillAll, hfill, List.map_cons, ← hresults]
        rfl
      · rw [Turn.chosen, hlength]
        omega

/-! ## Both passes -/

/-- Each partition with its hosts and those of them that the first pass keeps. -/
def keptRows (current : Placement) (members : List MemberId) (replicationFactor : Nat) :
    List (PartitionId × Priorities × List MemberId) :=
  (keep replicationFactor (current.fairShare members replicationFactor) current.toList
    (.idle members)).1

/-- The turns that lead from a placement to its target. -/
structure Account (current : Placement) (members : List MemberId) (replicationFactor : Nat)
    (turns : List Turn) (base final : Load) : Prop where
  rows : current.keptRows members replicationFactor = turns.map Turn.row
  sources : current.toList = turns.map Turn.source
  results : (current.rebalance members replicationFactor).toList = turns.map Turn.result
  keeps : Pass (fun load turn => Keeps members replicationFactor
    (current.fairShare members replicationFactor) load turn.row) (.idle members) turns base
  completes : Pass (Completes members replicationFactor) base turns final

theorem exists_account (current : Placement) (nonempty : members ≠ [])
    (enough : replicationFactor ≤ members.dedup.length) :
    ∃ turns base final, Account current members replicationFactor turns base final := by
  let kept := keep replicationFactor (current.fairShare members replicationFactor) current.toList
    (.idle members)
  rcases keep_pass replicationFactor (current.fairShare members replicationFactor) current.toList
    (Load.lists_idle members) with ⟨hlists, hentries, hkeeps⟩
  have hselects : ∀ row ∈ kept.1,
      Selection members row.2.2 ∧ row.2.2.length ≤ replicationFactor := by
    intro row hrow
    rcases hkeeps.exists_step hrow with ⟨load, next, hstep⟩
    exact ⟨hstep.selection, hstep.length_le⟩
  rcases fillAll_pass enough kept.1 hlists hselects with
    ⟨turns, final, hrows, hresults, hcompletes⟩
  have hsources : current.toList = turns.map Turn.source := by
    rw [← hentries, ← hrows, List.map_map]
    rfl
  -- The results come in the order of the partitions, so the map that is made from them lists them.
  have hordered : (turns.map Turn.result).Pairwise fun a b => compare a.1 b.1 = .lt := by
    have hsorted := current.ordered_keys_toList
    rw [hsources, List.pairwise_map] at hsorted
    exact List.pairwise_map.2 hsorted
  have hrebalance : current.rebalance members replicationFactor =
      .ofList (turns.map Turn.result) := by
    rw [← hresults]
    simp [rebalance, nonempty, kept, fairShare]
  refine ⟨turns, kept.2, final, hrows.symm, hsources, ?_, (hrows ▸ hkeeps).map, hcompletes⟩
  rw [hrebalance, SortedMap.toList_ofList hordered]

namespace Account

variable {current : Placement} {turns : List Turn} {base final : Load} {turn : Turn}
  {p : PartitionId} {hosts : Priorities}

theorem getElem?_source (h : Account current members replicationFactor turns base final)
    (hturn : turn ∈ turns) : current[turn.partition]? = some turn.present := by
  refine Std.ExtTreeMap.mem_toList_iff_getElem?_eq_some.1 ?_
  rw [h.sources]
  exact List.mem_map.2 ⟨turn, hturn, rfl⟩

theorem exists_of_source (h : Account current members replicationFactor turns base final)
    (hp : current[p]? = some present) :
    ∃ turn ∈ turns, turn.partition = p ∧ turn.present = present := by
  have hmem : (p, present) ∈ turns.map Turn.source :=
    h.sources ▸ Std.ExtTreeMap.mem_toList_iff_getElem?_eq_some.2 hp
  rcases List.mem_map.1 hmem with ⟨turn, hturn, hsource⟩
  cases hsource
  exact ⟨turn, hturn, rfl, rfl⟩

theorem getElem?_result (h : Account current members replicationFactor turns base final)
    (hturn : turn ∈ turns) :
    (current.rebalance members replicationFactor)[turn.partition]? =
      some (rank turn.present turn.chosen) := by
  refine Std.ExtTreeMap.mem_toList_iff_getElem?_eq_some.1 ?_
  rw [h.results]
  exact List.mem_map.2 ⟨turn, hturn, rfl⟩

theorem exists_of_result (h : Account current members replicationFactor turns base final)
    (hp : (current.rebalance members replicationFactor)[p]? = some hosts) :
    ∃ turn ∈ turns, turn.partition = p ∧ rank turn.present turn.chosen = hosts := by
  have hmem : (p, hosts) ∈ turns.map Turn.result :=
    h.results ▸ Std.ExtTreeMap.mem_toList_iff_getElem?_eq_some.2 hp
  rcases List.mem_map.1 hmem with ⟨turn, hturn, hresult⟩
  cases hresult
  exact ⟨turn, hturn, rfl, rfl⟩

theorem selection (h : Account current members replicationFactor turns base final)
    (hturn : turn ∈ turns) :
    Selection members turn.chosen ∧ turn.chosen.length = replicationFactor := by
  rcases h.completes.exists_step hturn with ⟨load, next, hstep⟩
  exact ⟨hstep.hands.selection, hstep.full⟩

/-- Nobody is handed what it keeps. -/
theorem mem_handed_iff (h : Account current members replicationFactor turns base final)
    (hturn : turn ∈ turns) :
    m ∈ turn.handed ↔ m ∈ turn.chosen ∧ m ∉ turn.kept := by
  have hdisjoint := (List.nodup_append.1 (h.selection hturn).1.nodup).2.2
  rw [Turn.chosen, List.mem_append]
  constructor
  · intro hhanded
    exact ⟨Or.inr hhanded, fun hkept => hdisjoint m hkept m hhanded rfl⟩
  · rintro ⟨hkept | hhanded, hnot⟩
    · exact absurd hkept hnot
    · exact hhanded

end Account

/-- Rebalancing keeps the partitions, and gives each of them as many hosts as the replication factor
says, all of them members. -/
theorem rebalance_selects (current : Placement) (nonempty : members ≠ [])
    (enough : replicationFactor ≤ members.dedup.length) :
    (∀ p, p ∈ current.rebalance members replicationFactor ↔ p ∈ current) ∧
      ∀ (p : PartitionId) (hosts : Priorities),
        (current.rebalance members replicationFactor)[p]? = some hosts →
        ∃ present chosen, current[p]? = some present ∧ hosts = rank present chosen ∧
          Selection members chosen ∧ chosen.length = replicationFactor := by
  rcases exists_account current nonempty enough with ⟨turns, base, final, haccount⟩
  refine ⟨fun p => ?_, fun p hosts hhosts => ?_⟩
  · simp only [Std.ExtTreeMap.mem_iff_isSome_getElem?, Option.isSome_iff_exists]
    constructor
    · rintro ⟨hosts, hhosts⟩
      rcases haccount.exists_of_result hhosts with ⟨turn, hturn, rfl, -⟩
      exact ⟨turn.present, haccount.getElem?_source hturn⟩
    · rintro ⟨present, hpresent⟩
      rcases haccount.exists_of_source hpresent with ⟨turn, hturn, rfl, -⟩
      exact ⟨_, haccount.getElem?_result hturn⟩
  · rcases haccount.exists_of_result hhosts with ⟨turn, hturn, rfl, rfl⟩
    rcases haccount.selection hturn with ⟨hselection, hlength⟩
    exact ⟨turn.present, turn.chosen, haccount.getElem?_source hturn, rfl, hselection, hlength⟩

end Placement

end ReplicaCluster
