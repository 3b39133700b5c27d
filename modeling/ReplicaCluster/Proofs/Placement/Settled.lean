import ReplicaCluster.Proofs.Placement.Retention

/-!
# Placements that rebalancing leaves alone

In the first pass, each member of a regular placement keeps its first partitions up to the fair
share.  The second pass gives back one of the others if no member outside the partition has fewer
replicas by then.  These numbers are known as long as all partitions before are back to what they
were, so whether rebalancing changes anything can be read off the placement
(`Placement.rebalance_eq_self_iff`).  It does not if the placement is even
(`Placement.settled_of_level`).
-/

namespace ReplicaCluster

namespace Placement

open Priorities

/-- If every element has a property that those before it have, all of them have it. -/
theorem forall_mem_of_forall_before {α : Type} {l : List α} {P : α → Prop}
    (h : ∀ before x after, l = before ++ x :: after → (∀ y ∈ before, P y) → P x) :
    ∀ x ∈ l, P x := by
  induction l using List.reverseRecOn with
  | nil => simp
  | append_singleton rest last ih =>
      have hrest : ∀ x ∈ rest, P x := ih fun before x after hl hbefore =>
        h before x (after ++ [last]) (by simp [hl]) hbefore
      intro x hx
      rcases List.mem_append.1 hx with hmem | hlast
      · exact hrest x hmem
      · rw [List.mem_singleton.1 hlast]
        exact h rest last [] rfl hrest

/-! ## Regular placements -/

/-- Each partition has the right number of hosts, all of them members, and their priorities are the
numbers from there down to 1. -/
structure Regular (placement : Placement) (members : List MemberId) (replicationFactor : Nat) :
    Prop where
  numbered : ∀ (p : PartitionId) (hosts : Priorities), placement[p]? = some hosts →
    hosts.Numbered replicationFactor
  subset : ∀ (p : PartitionId) (hosts : Priorities), placement[p]? = some hosts →
    ∀ m ∈ hosts, m ∈ members

/-- Those of the partitions that a member hosts which come before `p`. -/
def hostedBefore (placement : Placement) (p : PartitionId) (m : MemberId) : List PartitionId :=
  (placement.hostedBy m).filter (· < p)

/-- A host that has its fair share of partitions before `p` already could not give `p` to a member
with fewer replicas.  There, a member counts with the partitions before `p`, and with its fair share
or all that it has if that is more. -/
def Settled (placement : Placement) (members : List MemberId) (replicationFactor : Nat) : Prop :=
  ∀ (p : PartitionId) (hosts : Priorities), placement[p]? = some hosts →
    ∀ m ∈ hosts,
      placement.fairShare members replicationFactor ≤ (placement.hostedBefore p m).length →
      ∀ q ∈ members, q ∉ hosts → (placement.hostedBefore p m).length ≤
        max (min (placement.hostedBy q).length (placement.fairShare members replicationFactor))
          (placement.hostedBefore p q).length

variable {x : Placement} {members : List MemberId} {replicationFactor share : Nat}
  {turns before after : List Turn} {turn : Turn} {base final load next : Load} {m : MemberId}

/-! ## The ranks of the same hosts -/

/-- The partition has the hosts of before. -/
def Turn.Stays (turn : Turn) : Prop := ∀ m, m ∈ turn.chosen ↔ m ∈ turn.present

theorem Turn.result_eq_source_iff (numbered : turn.present.Numbered replicationFactor) :
    turn.result = turn.source ↔ turn.Stays := by
  constructor
  · intro h m
    have hrank : rank turn.present turn.chosen = turn.present := (Prod.mk.inj h).2
    have hmem : ((rank turn.present turn.chosen)[m]?).isSome ↔ m ∈ turn.chosen := isSome_rank
    rw [← hmem, hrank, Std.ExtTreeMap.mem_iff_isSome_getElem?]
  · intro h
    have hold : turn.present.ranked.filter turn.chosen.contains = turn.present.ranked :=
      List.filter_eq_self.2 fun m hm =>
        List.contains_iff_mem.2 ((h m).2 (mem_ranked_iff.1 hm))
    have hnew : (turn.chosen.filter fun m => !turn.present.contains m) = [] := by
      refine List.filter_eq_nil_iff.2 fun m hm hfree => ?_
      have hpresent := Std.ExtTreeMap.mem_iff_contains.1 ((h m).1 hm)
      simp [hpresent] at hfree
    rw [Turn.result, Turn.source, rank_eq, ordered, hold, hnew, List.append_nil,
      numbered.descending_ranked]

/-! ## Both passes -/

namespace Account

variable (h : Account x members replicationFactor turns base final)
  (regular : x.Regular members replicationFactor)

include h

/-- The partitions before one of the turns are those of the turns before it. -/
theorem length_hostedBefore (hturns : turns = before ++ turn :: after) (m : MemberId) :
    (x.hostedBefore turn.partition m).length = before.countP (·.present.contains m) := by
  have hsorted := pairwise_of_listing h.sources
  rw [hturns, List.pairwise_append, List.pairwise_cons] at hsorted
  rcases hsorted with ⟨-, ⟨hlater, -⟩, hearlier⟩
  -- The partitions ascend, so the filter takes all of the turns before and none of the others.
  have hfront : before.filter (fun t => decide (t.partition < turn.partition)) = before :=
    List.filter_eq_self.2 fun t ht =>
      decide_eq_true (hearlier t ht turn List.mem_cons_self)
  have hback : (turn :: after).filter (fun t => decide (t.partition < turn.partition)) = [] := by
    refine List.filter_eq_nil_iff.2 fun t ht hless => ?_
    have hless := of_decide_eq_true hless
    rcases List.mem_cons.1 ht with rfl | hafter
    · exact lt_irrefl _ hless
    · exact lt_asymm hless (hlater t hafter)
  have hbefore : turns.filter (fun t => decide (t.partition < turn.partition)) = before := by
    rw [hturns, List.filter_append, hfront, hback, List.append_nil]
  rw [hostedBefore, hostedBy_eq h.sources, List.filter_map, List.length_map, List.filter_filter]
  calc (turns.filter fun t => decide (t.partition < turn.partition) && t.present.contains m).length
    _ = ((turns.filter (·.present.contains m)).filter fun t =>
          decide (t.partition < turn.partition)).length := by rw [List.filter_filter]
    _ = (before.filter (·.present.contains m)).length := by rw [List.filter_comm, hbefore]
    _ = before.countP (·.present.contains m) := List.countP_eq_length_filter.symm

/-- Where the hosts are those of before, they were kept or handed the partition. -/
theorem countP_present (subset : ∀ t ∈ before, t ∈ turns) (fixed : ∀ t ∈ before, t.Stays)
    (m : MemberId) : before.countP (·.present.contains m) =
      before.countP (m ∈ ·.kept) + before.countP (m ∈ ·.handed) := by
  have hhosts : ∀ t ∈ before, (t.present.contains m = true ↔ m ∈ t.chosen) := fun t ht => by
    rw [fixed t ht m, Std.ExtTreeMap.mem_iff_contains]
  rw [List.countP_eq_countP_filter_add before _ fun t => decide (m ∈ t.kept), List.countP_filter,
    List.countP_filter]
  congr 1
  · refine List.countP_congr fun t ht => ?_
    simpa [hhosts t ht, Turn.chosen] using fun hkept => Or.inl hkept
  · refine List.countP_congr fun t ht => ?_
    simp [hhosts t ht, h.mem_handed_iff (subset t ht)]

include regular

theorem numbered_of_mem (hturn : turn ∈ turns) : turn.present.Numbered replicationFactor :=
  regular.numbered _ _ (h.getElem?_source hturn)

theorem known_of_mem (hturn : turn ∈ turns) : ∀ m ∈ turn.present, m ∈ members :=
  regular.subset _ _ (h.getElem?_source hturn)

/-- The placement stays the same if every partition does. -/
theorem rebalance_eq_iff :
    x.rebalance members replicationFactor = x ↔ ∀ turn ∈ turns, turn.Stays := by
  rw [← Std.ExtTreeMap.toList_inj, h.results, h.sources, List.map_inj_left]
  exact forall₂_congr fun turn hturn =>
    Turn.result_eq_source_iff (h.numbered_of_mem regular hturn)

/-- The loads in both passes, if the partitions before are back to what they were. -/
theorem exists_loads (hturns : turns = before ++ turn :: after)
    (fixed : ∀ t ∈ before, t.Stays) :
    let share := x.fairShare members replicationFactor
    (∀ m, m ∈ turn.kept ↔ m ∈ turn.present ∧ before.countP (·.present.contains m) < share) ∧
      ∃ load next, Completes members replicationFactor load turn next ∧
        ∀ m, load.count m = max (min (turns.countP (·.present.contains m)) share)
          (before.countP (·.present.contains m)) := by
  intro share
  have hsub : ∀ t ∈ before, t ∈ turns := fun t ht => hturns ▸ List.mem_append_left _ ht
  have hturn : turn ∈ turns := hturns ▸ List.mem_append_right before List.mem_cons_self
  rcases (hturns ▸ h.keeps).split with ⟨kload, knext, hkbefore, hkstep, -⟩
  rcases (hturns ▸ h.completes).split with ⟨load, next, hbefore, hstep, -⟩
  have hkload : ∀ m, kload.count m = min (before.countP (·.present.contains m)) share := by
    intro m
    have hcount := count_of_keeps (m := m) hkbefore
      (fun t ht => (h.numbered_of_mem regular (hsub t ht)).size.le)
      (fun t ht => h.known_of_mem regular (hsub t ht) m) (by simp [Load.count_idle])
    simpa [Load.count_idle] using hcount
  refine ⟨fun m => ?_, load, next, hstep, fun m => ?_⟩
  · rw [hkstep.mem_kept_iff (h.numbered_of_mem regular hturn).size.le, hkload]
    refine and_congr_right fun hm => ?_
    rw [and_iff_right (h.known_of_mem regular hturn m hm)]
    omega
  · have hkept := hkbefore.count Turn.kept (fun _ _ _ hstep => hstep.count) m
    rw [hkload, Load.count_idle, Nat.zero_add] at hkept
    have hbase := count_of_keeps (m := m) h.keeps
      (fun t ht => (h.numbered_of_mem regular ht).size.le)
      (fun t ht => h.known_of_mem regular ht m) (by simp [Load.count_idle])
    rw [Load.count_idle, Nat.zero_add] at hbase
    have hload := hbefore.count_handed m
    -- What was handed out so far is what the hosts before did not keep.
    have hpresent := h.countP_present hsub fixed m
    have hsublist : before.countP (·.present.contains m) ≤ turns.countP (·.present.contains m) := by
      rw [hturns, List.countP_append]
      exact Nat.le_add_right _ _
    omega

/-- A partition gets its hosts back just if no member outside has fewer replicas than one of those
that did not keep theirs. -/
theorem stays_iff (hturns : turns = before ++ turn :: after) (fixed : ∀ t ∈ before, t.Stays) :
    let share := x.fairShare members replicationFactor
    turn.Stays ↔ ∀ m ∈ turn.present, share ≤ before.countP (·.present.contains m) →
      ∀ q ∈ members, q ∉ turn.present → before.countP (·.present.contains m) ≤
        max (min (turns.countP (·.present.contains q)) share)
          (before.countP (·.present.contains q)) := by
  intro share
  have hturn : turn ∈ turns := hturns ▸ List.mem_append_right before List.mem_cons_self
  rcases h.exists_loads regular hturns fixed with ⟨hkept, load, next, hstep, hload⟩
  have hfull : turn.chosen.length = turn.present.ranked.length := by
    rw [hstep.full, (h.numbered_of_mem regular hturn).length_ranked]
  -- Beyond the fair share, the load of a host is what it hosts before.
  have hbeyond : ∀ m, share ≤ before.countP (·.present.contains m) →
      load.count m = before.countP (·.present.contains m) := by
    intro m hm
    rw [hload]
    omega
  constructor
  · intro hstays m hm hmore q hq hfree
    have hpassed : q ∉ turn.chosen := fun hmem => hfree ((hstays q).1 hmem)
    have hhanded : m ∈ turn.handed :=
      (h.mem_handed_iff hturn).2 ⟨(hstays m).2 hm, fun hmem => by
        have hfew := ((hkept m).1 hmem).2
        omega⟩
    have hle := Load.count_le_of_weight_le (hstep.hands.lightest m hhanded q hq hpassed)
    rwa [hbeyond m hmore, hload] at hle
  · intro hsettled
    have hsubset : turn.chosen ⊆ turn.present.ranked := by
      intro q hq
      by_contra hfree
      -- Then a host of before was passed over for `q`, which needs fewer replicas for that.
      rcases exists_mem_of_length_le turn.present.nodup_ranked hfull.le hq hfree with
        ⟨m, hm, hnot⟩
      rw [mem_ranked_iff] at hm hfree
      have hhanded : q ∈ turn.handed :=
        (h.mem_handed_iff hturn).2 ⟨hq, fun hmem => hfree ((hkept q).1 hmem).1⟩
      have hmore : share ≤ before.countP (·.present.contains m) := by
        by_contra hless
        exact hnot (List.mem_append_left _ ((hkept m).2 ⟨hm, Nat.lt_of_not_le hless⟩))
      have hlighter : load.count q < load.count m := by
        refine Load.count_lt_of_weight_le (hstep.hands.lightest q hhanded m
          (h.known_of_mem regular hturn m hm) hnot) ?_ (Std.ExtTreeMap.mem_iff_contains.1 hm)
        exact SortedMap.contains_eq_false_iff.2 hfree
      have hle := hsettled m hm hmore q ((h.selection hturn).1.subset q hq) hfree
      rw [hbeyond m hmore, hload] at hlighter
      omega
    have hchosen : Selection turn.present.ranked turn.chosen :=
      ⟨(h.selection hturn).1.nodup, hsubset⟩
    exact fun m => (hchosen.mem_iff_of_length_le hfull.ge).trans mem_ranked_iff

end Account

/-! ## Fixed points -/

/-- Rebalancing changes nothing just if the placement is settled. -/
theorem rebalance_eq_self_iff (regular : x.Regular members replicationFactor)
    (nonempty : members ≠ []) (enough : replicationFactor ≤ members.dedup.length) :
    x.rebalance members replicationFactor = x ↔ x.Settled members replicationFactor := by
  rcases exists_account x nonempty enough with ⟨turns, base, final, haccount⟩
  rw [haccount.rebalance_eq_iff regular]
  constructor
  · intro hstays p hosts hp m hm hmore q hq hfree
    rcases haccount.exists_of_source hp with ⟨turn, hturn, rfl, rfl⟩
    rcases List.append_of_mem hturn with ⟨before, after, hturns⟩
    have hfixed : ∀ t ∈ before, t.Stays := fun t ht =>
      hstays t (hturns ▸ List.mem_append_left _ ht)
    rw [haccount.length_hostedBefore hturns] at hmore
    rw [haccount.length_hostedBefore hturns, haccount.length_hostedBefore hturns,
      haccount.length_hostedBy_source]
    exact (haccount.stays_iff regular hturns hfixed).1 (hstays turn hturn) m hm hmore q hq hfree
  · -- By induction on the turns, since the loads are known as long as those before stay.
    intro hsettled
    refine forall_mem_of_forall_before fun before turn after hturns hfixed => ?_
    have hturn : turn ∈ turns := hturns ▸ List.mem_append_right before List.mem_cons_self
    refine (haccount.stays_iff regular hturns hfixed).2 fun m hm hmore q hq hfree => ?_
    rw [← haccount.length_hostedBefore hturns] at hmore
    have hle := hsettled _ _ (haccount.getElem?_source hturn) m hm hmore q hq hfree
    rwa [haccount.length_hostedBefore hturns, haccount.length_hostedBefore hturns,
      haccount.length_hostedBy_source] at hle

theorem Regular.sum_length_hostedBy (regular : x.Regular members replicationFactor)
    (distinct : members.Nodup) :
    (members.map fun m => (x.hostedBy m).length).sum = x.size * replicationFactor := by
  have hlisting : x.toList = x.toList.map id := (List.map_id _).symm
  have heach : ∀ e ∈ x.toList, Selection members e.2.ranked ∧
      e.2.ranked.length = replicationFactor := by
    intro e he
    rw [Std.ExtTreeMap.mem_toList_iff_getElem?_eq_some] at he
    exact ⟨⟨e.2.nodup_ranked, fun m hm => regular.subset _ _ he m (mem_ranked_iff.1 hm)⟩,
      (regular.numbered _ _ he).length_ranked⟩
  rw [← Std.ExtTreeMap.length_toList, ← sum_countP (fun e => e.2.ranked) distinct heach]
  refine congrArg List.sum (List.map_congr_left fun m _ => ?_)
  rw [length_hostedBy hlisting]
  refine List.countP_congr fun e _ => ?_
  rw [decide_eq_true_eq, mem_ranked_iff, Std.ExtTreeMap.mem_iff_contains]
  rfl

/-- An even placement is settled, since beyond their fair share members have one more replica at
most, and everybody has the fair share. -/
theorem settled_of_level (regular : x.Regular members replicationFactor)
    (distinct : members.Nodup) (nonempty : members ≠ [])
    (level : ∀ a ∈ members, ∀ b ∈ members, (x.hostedBy a).length ≤ (x.hostedBy b).length + 1) :
    x.Settled members replicationFactor := by
  have hsum := regular.sum_length_hostedBy distinct
  intro p hosts hp m hm hmore q hq _
  have hlow : x.fairShare members replicationFactor ≤ (x.hostedBy q).length := by
    refine share_le_of_level level ?_ hq
    rw [hsum]
    exact x.length_mul_fairShare_le members replicationFactor
  have hhigh : (x.hostedBy m).length ≤ x.fairShare members replicationFactor + 1 := by
    refine le_share_of_level level ?_
      (regular.subset p hosts hp m hm)
    rw [hsum]
    exact (x.lt_length_mul_fairShare nonempty replicationFactor).le
  -- The partition itself is one that `m` hosts, but not before.
  have hbefore : (x.hostedBefore p m).length < (x.hostedBy m).length := by
    refine List.length_filter_lt_length_iff_exists.2 ⟨p, ?_, by simp⟩
    rw [mem_hostedBy_iff, priority?_of_getElem? hp]
    exact Std.ExtTreeMap.mem_iff_isSome_getElem?.1 hm
  omega

/-- Rebalancing makes a placement regular. -/
theorem regular_rebalance (current : Placement) (nonempty : members ≠ [])
    (enough : replicationFactor ≤ members.dedup.length) :
    (current.rebalance members replicationFactor).Regular members replicationFactor := by
  have hselects := (rebalance_selects current nonempty enough).2
  refine ⟨fun p hosts hhosts => ?_, fun p hosts hhosts m hm => ?_⟩
  · rcases hselects p hosts hhosts with ⟨present, chosen, -, rfl, hselection, hlength⟩
    exact hlength ▸ numbered_rank hselection.nodup
  · rcases hselects p hosts hhosts with ⟨present, chosen, -, rfl, hselection, -⟩
    exact hselection.subset m (isSome_rank.1 (Std.ExtTreeMap.mem_iff_isSome_getElem?.1 hm))

end Placement

end ReplicaCluster
