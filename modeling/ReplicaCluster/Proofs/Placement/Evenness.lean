import ReplicaCluster.Proofs.Placement.Ranking

/-!
# How evenly rebalancing spreads replicas

A member of the target placement has the partitions that it keeps, which are no more than its fair
share, and those that it is handed.  When it is handed a partition, it has no more replicas than any
member has in the end that does not host the same partition.  So a member can only have many more
replicas than another one if it is handed partitions that the other one hosts as well
(`Placement.rebalance_spreads`).  That happens: once the other member keeps a partition or is handed
it, it is out of the question for the places of this partition that are left
(`Placement.exists_rebalance_uneven`).
-/

namespace ReplicaCluster

namespace Placement

section Lists

variable {α β : Type} {l : List α}

/-- The place of a listed value in the list that was filtered. -/
theorem exists_split_of_map_filter {q : α → Bool} {f : α → β} {front back : List β} {y : β}
    (h : (l.filter q).map f = front ++ y :: back) :
    ∃ before x after, l = before ++ x :: after ∧ q x = true ∧ f x = y ∧
      before.countP q = front.length := by
  rcases List.map_eq_append_iff.1 h with ⟨picked, later, hfilter, hfront, hlater⟩
  rcases List.map_eq_cons_iff.1 hlater with ⟨x, last, rfl, hx, -⟩
  rcases List.filter_eq_append_iff.1 hfilter with ⟨start, rest, rfl, hpicked, hrest⟩
  rcases List.filter_eq_cons_iff.1 hrest with ⟨skipped, after, rfl, hskipped, hq, -⟩
  refine ⟨start ++ skipped, x, after, by simp, hq, hx, ?_⟩
  rw [List.countP_append, List.countP_eq_zero.2 hskipped, List.countP_eq_length_filter, hpicked,
    ← hfront, List.length_map]
  rfl

/-- Where the values are distinct, each element is recognised by its own. -/
theorem map_mem_map_filter_iff {q : α → Bool} {f : α → β} {x : α} (distinct : (l.map f).Nodup)
    (hx : x ∈ l) : f x ∈ (l.filter q).map f ↔ q x = true := by
  constructor
  · intro h
    rcases List.mem_map.1 h with ⟨y, hy, hvalue⟩
    rcases List.mem_filter.1 hy with ⟨hmem, hq⟩
    exact List.inj_on_of_nodup_map distinct hmem hx hvalue ▸ hq
  · intro hq
    exact List.mem_map.2 ⟨x, List.mem_filter.2 ⟨hx, hq⟩, rfl⟩

/-- If at most `k` elements come before any one without the property, at most one of those that
exceed `k` is without it. -/
theorem length_le_of_forall_split {q : α → Bool} {n k : Nat} :
    (∀ before x after, l = before ++ x :: after → q x = false → n + before.length ≤ k) →
    n + l.length ≤ max (k + 1) n + l.countP q := by
  induction l using List.reverseRecOn with
  | nil =>
      intro _
      simp
  | append_singleton rest x ih =>
      intro h
      have hrest : n + rest.length ≤ max (k + 1) n + rest.countP q :=
        ih fun before y after hl hy => h before y (after ++ [x]) (by simp [hl]) hy
      rw [List.length_append, List.countP_append, List.length_singleton, List.countP_singleton]
      cases hx : q x with
      -- An element with the property makes both sides one more.
      | true =>
          rw [if_pos rfl]
          omega
      | false =>
          have hbound := h rest x [] rfl hx
          rw [if_neg (by simp)]
          omega

end Lists

variable {current : Placement} {members : List MemberId} {replicationFactor : Nat}
  {turns : List Turn} {base final : Load} {turn : Turn} {m a b : MemberId} {p : PartitionId}

/-- The partitions that rebalancing leaves on a member. -/
def keptBy (current : Placement) (members : List MemberId) (replicationFactor : Nat)
    (m : MemberId) : List PartitionId :=
  ((current.keptRows members replicationFactor).filter fun row => row.2.2.contains m).map (·.1)

/-- The partitions that a member gets in the second pass of rebalancing. -/
def handedTo (current : Placement) (members : List MemberId) (replicationFactor : Nat)
    (m : MemberId) : List PartitionId :=
  ((current.rebalance members replicationFactor).hostedBy m).filter fun p =>
    !(current.keptBy members replicationFactor m).contains p

/-- How many of the partitions that a member is handed another one hosts as well. -/
def overlap (current : Placement) (members : List MemberId) (replicationFactor : Nat)
    (a b : MemberId) : Nat :=
  (current.handedTo members replicationFactor a).countP
    ((current.rebalance members replicationFactor).hostedBy b).contains

namespace Account

variable (h : Account current members replicationFactor turns base final)

include h

theorem nodup_partitions : (turns.map (·.partition)).Nodup :=
  List.pairwise_map.2 ((pairwise_of_listing h.sources).imp Nat.ne_of_lt)

theorem hostedBy_target (m : MemberId) :
    (current.rebalance members replicationFactor).hostedBy m =
      (turns.filter (m ∈ ·.chosen)).map (·.partition) := by
  rw [hostedBy_eq h.results]
  refine congrArg (List.map _) (List.filter_congr fun turn _ => ?_)
  rw [Bool.eq_iff_iff, Std.ExtTreeMap.contains_eq_isSome_getElem?, Turn.result, isSome_rank,
    decide_eq_true_eq]

theorem mem_hostedBy_target_iff (hturn : turn ∈ turns) :
    turn.partition ∈ (current.rebalance members replicationFactor).hostedBy m ↔
      m ∈ turn.chosen := by
  rw [h.hostedBy_target, map_mem_map_filter_iff h.nodup_partitions hturn, decide_eq_true_eq]

theorem keptBy_eq (m : MemberId) :
    current.keptBy members replicationFactor m =
      (turns.filter (m ∈ ·.kept)).map (·.partition) := by
  rw [keptBy, h.rows, List.filter_map, List.map_map]
  refine congrArg (List.map _) (List.filter_congr fun turn _ => ?_)
  rw [Function.comp_apply, Bool.eq_iff_iff, List.contains_iff_mem, decide_eq_true_eq, Turn.row]

theorem mem_keptBy_iff (hturn : turn ∈ turns) :
    turn.partition ∈ current.keptBy members replicationFactor m ↔ m ∈ turn.kept := by
  rw [h.keptBy_eq, map_mem_map_filter_iff h.nodup_partitions hturn, decide_eq_true_eq]

theorem handedTo_eq (m : MemberId) :
    current.handedTo members replicationFactor m =
      (turns.filter (m ∈ ·.handed)).map (·.partition) := by
  rw [handedTo, h.hostedBy_target, List.filter_map, List.filter_filter]
  refine congrArg (List.map _) (List.filter_congr fun turn hturn => ?_)
  rw [Bool.eq_iff_iff]
  simp [h.mem_keptBy_iff hturn, h.mem_handed_iff hturn, and_comm]

/-- A member of the target has what it keeps and what it is handed. -/
theorem keptBy_append_handedTo_perm (m : MemberId) :
    (current.keptBy members replicationFactor m ++
      current.handedTo members replicationFactor m).Perm
        ((current.rebalance members replicationFactor).hostedBy m) := by
  have hkept : (current.keptBy members replicationFactor m).Perm
      (((current.rebalance members replicationFactor).hostedBy m).filter fun p =>
        (current.keptBy members replicationFactor m).contains p) := by
    rw [h.hostedBy_target, List.filter_map, List.filter_filter]
    nth_rewrite 1 [h.keptBy_eq]
    refine .of_eq (congrArg (List.map _) (List.filter_congr fun turn hturn => ?_))
    rw [Bool.eq_iff_iff]
    simpa [h.mem_keptBy_iff hturn, Turn.chosen] using fun hkept => Or.inl hkept
  exact (hkept.append_right _).trans (List.filter_append_perm _ _)

theorem length_keptBy (m : MemberId) :
    (current.keptBy members replicationFactor m).length = base.count m := by
  rw [h.keptBy_eq, List.length_map, ← List.countP_eq_length_filter,
    h.keeps.count Turn.kept (fun _ _ _ hstep => hstep.count) m, Load.count_idle,
    Nat.zero_add]

theorem length_hostedBy_target (m : MemberId) :
    ((current.rebalance members replicationFactor).hostedBy m).length = final.count m := by
  rw [← (h.keptBy_append_handedTo_perm m).length_eq, List.length_append, h.length_keptBy,
    h.handedTo_eq, List.length_map, ← List.countP_eq_length_filter, h.completes.count_handed]

/-- Nobody keeps more than the fair share. -/
theorem length_keptBy_le (m : MemberId) :
    (current.keptBy members replicationFactor m).length ≤
      current.fairShare members replicationFactor := by
  rw [h.length_keptBy]
  refine h.keeps.invariant (P := fun load => load.count m ≤ _) ?_ (by simp [Load.count_idle])
  intro base turn load hstep hle
  rw [hstep.count]
  by_cases hkept : m ∈ turn.row.2.2
  · rw [if_pos hkept]
    exact (hstep.candidate hkept).2
  · rwa [if_neg hkept]

/-- Who is handed a partition has no more than any member that does not host it in the end. -/
theorem handed_least {before after : List PartitionId}
    (ha : current.handedTo members replicationFactor a = before ++ p :: after) (hb : b ∈ members)
    (free : p ∉ (current.rebalance members replicationFactor).hostedBy b) :
    (current.keptBy members replicationFactor a).length + before.length ≤
      ((current.rebalance members replicationFactor).hostedBy b).length := by
  rw [h.handedTo_eq] at ha
  rcases exists_split_of_map_filter ha with ⟨earlier, turn, later, hturns, hhanded, rfl, hcount⟩
  have hturn : turn ∈ turns := hturns ▸ List.mem_append_right earlier List.mem_cons_self
  rw [h.mem_hostedBy_target_iff hturn] at free
  rcases (hturns ▸ h.completes).split with ⟨load, next, hearlier, hstep, hlater⟩
  have hleast : load.count a ≤ load.count b :=
    Load.count_le_of_weight_le (hstep.hands.lightest a (of_decide_eq_true hhanded) b hb
      free)
  -- The loads only grow from here to the end.
  have hgrowth : load.count b ≤ final.count b := by
    have hnext := hstep.hands.count b
    have hfinal := hlater.count_handed b
    omega
  calc (current.keptBy members replicationFactor a).length + before.length
    _ = base.count a + earlier.countP (a ∈ ·.handed) := by rw [h.length_keptBy, hcount]
    _ = load.count a := (hearlier.count_handed a).symm
    _ ≤ final.count b := hleast.trans hgrowth
    _ = ((current.rebalance members replicationFactor).hostedBy b).length :=
      (h.length_hostedBy_target b).symm

/-- Only partitions that the other member has as well take a member beyond its fair share and beyond
one replica more than the other one has. -/
theorem length_hostedBy_le (hb : b ∈ members) :
    ((current.rebalance members replicationFactor).hostedBy a).length ≤
      max (((current.rebalance members replicationFactor).hostedBy b).length + 1)
          (current.fairShare members replicationFactor) +
        current.overlap members replicationFactor a b := by
  have hbound := length_le_of_forall_split (l := current.handedTo members replicationFactor a)
    (q := ((current.rebalance members replicationFactor).hostedBy b).contains)
    (n := (current.keptBy members replicationFactor a).length)
    fun before p after ha hfree => h.handed_least ha hb (by simpa using hfree)
  rw [← (h.keptBy_append_handedTo_perm a).length_eq, List.length_append, overlap]
  have hkept := h.length_keptBy_le a
  omega

/-- The numbers of the replicas add up. -/
theorem sum_length_hostedBy :
    (members.dedup.map fun m =>
      ((current.rebalance members replicationFactor).hostedBy m).length).sum =
        current.size * replicationFactor := by
  have hsum := sum_countP Turn.chosen members.nodup_dedup fun turn hturn =>
    ⟨(h.selection hturn).1.dedup, (h.selection hturn).2⟩
  rw [← Std.ExtTreeMap.length_toList, h.sources, List.length_map, ← hsum]
  refine congrArg List.sum (List.map_congr_left fun m _ => ?_)
  rw [h.hostedBy_target, List.length_map, List.countP_eq_length_filter]

theorem overlap_eq_zero (single : replicationFactor = 1) (differ : a ≠ b) :
    current.overlap members replicationFactor a b = 0 := by
  refine List.countP_eq_zero.2 fun p hp hshared => differ ?_
  rw [h.handedTo_eq] at hp
  rcases List.mem_map.1 hp with ⟨turn, hmem, rfl⟩
  rcases List.mem_filter.1 hmem with ⟨hturn, hhanded⟩
  rw [List.contains_iff_mem, h.mem_hostedBy_target_iff hturn] at hshared
  have ha := ((h.mem_handed_iff hturn).1 (of_decide_eq_true hhanded)).1
  rcases List.length_eq_one_iff.1 ((h.selection hturn).2.trans single) with ⟨host, hhost⟩
  rw [hhost, List.mem_singleton] at ha hshared
  exact ha.trans hshared.symm

/-- Where somebody has too many replicas, somebody was handed partitions that the other one has. -/
theorem exists_overlap (ha : a ∈ members) (hb : b ∈ members)
    (uneven : ((current.rebalance members replicationFactor).hostedBy b).length + 1 <
      ((current.rebalance members replicationFactor).hostedBy a).length) :
    ∃ c ∈ members, ((current.rebalance members replicationFactor).hostedBy b).length + 1 <
        ((current.rebalance members replicationFactor).hostedBy c).length ∧
      0 < current.overlap members replicationFactor c b := by
  by_contra hnone
  have hmean : members.dedup.length * current.fairShare members replicationFactor ≤
      (members.dedup.map fun m =>
        ((current.rebalance members replicationFactor).hostedBy m).length).sum := by
    rw [h.sum_length_hostedBy]
    exact (Nat.mul_le_mul_right _ members.dedup_sublist.length_le).trans
      (current.length_mul_fairShare_le members replicationFactor)
  -- Without an overlap the fair share bounds all loads, and since that of `b` is below it, the
  -- loads do not add up.
  refine absurd (le_succ_of_bounded hmean (List.mem_dedup.2 hb) (fun c hc => ?_) a
    (List.mem_dedup.2 ha)) (Nat.not_le.2 uneven)
  by_contra hmore
  have hbound := h.length_hostedBy_le (a := c) hb
  exact hnone ⟨c, List.mem_dedup.1 hc, by omega, by omega⟩

/-- With one replica of each partition, nobody is in the way of anybody. -/
theorem level_of_one (single : replicationFactor = 1) (ha : a ∈ members) (hb : b ∈ members) :
    ((current.rebalance members replicationFactor).hostedBy a).length ≤
      ((current.rebalance members replicationFactor).hostedBy b).length + 1 := by
  by_contra huneven
  rcases h.exists_overlap ha hb (Nat.lt_of_not_le huneven) with ⟨c, -, hmore, hoverlap⟩
  have hdiffer : c ≠ b := by
    rintro rfl
    omega
  rw [h.overlap_eq_zero single hdiffer] at hoverlap
  exact lt_irrefl 0 hoverlap

/-- With as many replicas as there are members, everybody hosts everything. -/
theorem level_of_all (all : replicationFactor = members.dedup.length) (ha : a ∈ members)
    (hb : b ∈ members) :
    ((current.rebalance members replicationFactor).hostedBy a).length ≤
      ((current.rebalance members replicationFactor).hostedBy b).length + 1 := by
  have hhosts : ∀ m ∈ members, ∀ turn ∈ turns, m ∈ turn.chosen := by
    intro m hm turn hturn
    rcases h.selection hturn with ⟨hselection, hlength⟩
    have hall : members.dedup.length ≤ turn.chosen.length := (all.symm.trans hlength.symm).le
    exact (hselection.dedup.mem_iff_of_length_le hall).2 (List.mem_dedup.2 hm)
  have hlength : ∀ m ∈ members,
      ((current.rebalance members replicationFactor).hostedBy m).length = turns.length := by
    intro m hm
    rw [h.hostedBy_target, List.length_map, ← List.countP_eq_length_filter]
    exact List.countP_eq_length.2 fun turn hturn => decide_eq_true (hhosts m hm turn hturn)
  rw [hlength a ha, hlength b hb]
  exact Nat.le_succ _

end Account

/-! ## The spread of the target -/

/-- A member of the target has what it keeps, which is its fair share at most, and what it is
handed.  When it is handed a partition it has no more replicas than any member that ends up without
this partition has in the end.  So it exceeds the load of another member by two or more only with
partitions that both of them host, as far as it exceeds its fair share, and nobody falls behind but
for such partitions.  With one replica of each partition, or one on every member, the target is
even. -/
theorem rebalance_spreads (current : Placement) (members : List MemberId)
    (replicationFactor : Nat) (positive : 1 ≤ replicationFactor)
    (enough : replicationFactor ≤ members.dedup.length) :
    let target := current.rebalance members replicationFactor
    let load m := (target.hostedBy m).length
    let kept := current.keptBy members replicationFactor
    let handed := current.handedTo members replicationFactor
    let overlap := current.overlap members replicationFactor
    let share := current.fairShare members replicationFactor
    (∀ m, (kept m ++ handed m).Perm (target.hostedBy m) ∧ (kept m).length ≤ share) ∧
      (∀ a, ∀ b ∈ members, ∀ before p after, handed a = before ++ p :: after →
        p ∉ target.hostedBy b → (kept a).length + before.length ≤ load b) ∧
      (∀ a, ∀ b ∈ members, load a ≤ max (load b + 1) share + overlap a b) ∧
      (∀ a ∈ members, ∀ b ∈ members, load b + 1 < load a →
        ∃ c ∈ members, load b + 1 < load c ∧ 0 < overlap c b) ∧
      (replicationFactor = 1 ∨ replicationFactor = members.dedup.length →
        ∀ a ∈ members, ∀ b ∈ members, load a ≤ load b + 1) := by
  intro target load kept handed overlap share
  have hnonempty := ne_nil_of_enough positive enough
  rcases exists_account current hnonempty enough with ⟨turns, base, final, haccount⟩
  refine ⟨fun m => ⟨haccount.keptBy_append_handedTo_perm m, haccount.length_keptBy_le m⟩,
    fun a b hb before p after ha hfree => haccount.handed_least ha hb hfree,
    fun a b hb => haccount.length_hostedBy_le hb,
    fun a ha b hb huneven => haccount.exists_overlap ha hb huneven, ?_⟩
  rintro (hone | hall) a ha b hb
  · exact haccount.level_of_one hone ha hb
  · exact haccount.level_of_all hall ha hb

/-- In a target where one member has two replicas more than another one, it was handed a partition
that the other one keeps. -/
theorem rebalance_spreads_uneven :
    let current : Placement := .ofList [(1, Priorities.descending ["c"]),
      (2, .descending ["c"]), (3, .descending ["b"])]
    let members := ["a", "b", "c"]
    let load m := ((current.rebalance members 2).hostedBy m).length
    1 ≤ 2 ∧ 2 ≤ members.dedup.length ∧ load "b" + 1 < load "a" ∧
      load "a" ≤ max (load "b" + 1) (current.fairShare members 2) +
        current.overlap members 2 "a" "b" ∧
      ∃ m ∈ members, load "b" + 1 < load m ∧ 0 < current.overlap members 2 m "b" := by
  intro current members load
  have enough : 2 ≤ members.dedup.length := by decide
  have huneven : load "b" + 1 < load "a" := by decide +kernel
  rcases rebalance_spreads current members 2 (by decide) enough with
    ⟨-, -, hbound, hoverlap, -⟩
  exact ⟨by decide, enough, huneven, hbound "a" "b" (by decide),
    hoverlap "a" (by decide) "b" (by decide) huneven⟩

/-- Two of three partitions go to the same two members, and the third one is kept by the member that
has nothing else, although the hosts that are kept could be completed to an even placement. -/
theorem exists_rebalance_uneven :
    let current : Placement := .ofList [(1, Priorities.descending ["c"]),
      (2, .descending ["c"]), (3, .descending ["b"])]
    let even : Placement := .ofList [(1, Priorities.descending ["c", "a"]),
      (2, .descending ["c", "b"]), (3, .descending ["b", "a"])]
    let members := ["a", "b", "c"]
    members.Nodup ∧ 1 ≤ 2 ∧ 2 ≤ members.length ∧
      even.keys = current.keys ∧
      (∀ e ∈ even.toList, e.2.size = 2 ∧ ∀ m ∈ e.2.keys, m ∈ members) ∧
      (∀ a ∈ members, ∀ b ∈ members, (even.hostedBy a).length ≤ (even.hostedBy b).length + 1) ∧
      (∀ m ∈ members, current.keptBy members 2 m = current.hostedBy m ∧
        ∀ p ∈ current.hostedBy m, p ∈ even.hostedBy m) ∧
      ¬ ∀ a ∈ members, ∀ b ∈ members, ((current.rebalance members 2).hostedBy a).length ≤
        ((current.rebalance members 2).hostedBy b).length + 1 := by
  decide +kernel

end Placement

end ReplicaCluster
