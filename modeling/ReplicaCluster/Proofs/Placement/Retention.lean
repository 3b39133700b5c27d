import ReplicaCluster.Proofs.Placement.Evenness

/-!
# What stays where it is

Where no partition has more hosts than it needs, the first pass of rebalancing always has a place
for a host of before.  So each member keeps the first partitions that it hosts, up to its fair share
(`Placement.count_of_keeps`).  The second pass takes nothing back, and rebalancing takes no more from
a member than that has beyond its fair share (`Placement.rebalance_keeps_share`).
-/

namespace ReplicaCluster

namespace Placement

open Priorities

variable {current : Placement} {members : List MemberId} {replicationFactor share : Nat}
  {turns : List Turn} {turn : Turn} {base load next final : Load} {m : MemberId}

/-! ## The first pass -/

theorem Keeps.mem_kept_iff (h : Keeps members replicationFactor share load turn.row next)
    (few : turn.present.size ≤ replicationFactor) :
    m ∈ turn.kept ↔ m ∈ turn.present ∧ m ∈ members ∧ load.count m < share := by
  have hall : turn.kept =
      turn.present.ranked.filter fun m => m ∈ members ∧ load.count m < share := by
    refine h.kept.trans (List.take_of_length_le ?_)
    exact (List.length_filter_le _ _).trans (turn.present.length_ranked.trans_le few)
  rw [hall, List.mem_filter, mem_ranked_iff, decide_eq_true_eq]

/-- A member keeps the first partitions that it hosts, up to the share. -/
theorem count_of_keeps
    (h : Pass (fun load (turn : Turn) => Keeps members replicationFactor share load turn.row) load
      turns final)
    (few : ∀ turn ∈ turns, turn.present.size ≤ replicationFactor)
    (known : ∀ turn ∈ turns, m ∈ turn.present → m ∈ members) (below : load.count m ≤ share) :
    final.count m = min (load.count m + turns.countP (·.present.contains m)) share := by
  induction h with
  | nil => simpa using below
  | @cons base load final turn rest first tail ih =>
      rcases List.forall_mem_cons.1 few with ⟨hfew, hfews⟩
      rcases List.forall_mem_cons.1 known with ⟨hknown, hknowns⟩
      have hkept := first.mem_kept_iff (m := m) hfew
      have hcount : load.count m = base.count m + if m ∈ turn.kept then 1 else 0 := first.count m
      rw [List.countP_cons]
      by_cases hpresent : m ∈ turn.present
      · have hcontains := Std.ExtTreeMap.mem_iff_contains.1 hpresent
        by_cases hroom : base.count m < share
        · rw [if_pos (hkept.2 ⟨hpresent, hknown hpresent, hroom⟩)] at hcount
          rw [ih hfews hknowns (by omega), hcontains, if_pos rfl]
          omega
        · rw [if_neg fun hmem => hroom (hkept.1 hmem).2.2] at hcount
          rw [ih hfews hknowns (by omega), hcontains, if_pos rfl]
          omega
      · have hcontains := SortedMap.contains_eq_false_iff.2 hpresent
        rw [if_neg fun hmem => hpresent (hkept.1 hmem).1] at hcount
        rw [ih hfews hknowns (by omega), hcontains, if_neg (by simp)]
        omega

/-! ## Both passes -/

namespace Account

variable (h : Account current members replicationFactor turns base final)

include h

theorem length_hostedBy_source (m : MemberId) :
    (current.hostedBy m).length = turns.countP (·.present.contains m) :=
  length_hostedBy h.sources m

theorem size_present_le (few : ∀ hosts ∈ current.values, hosts.size ≤ replicationFactor)
    (hturn : turn ∈ turns) : turn.present.size ≤ replicationFactor :=
  few _ (SortedMap.mem_values_iff.2 ⟨_, h.getElem?_source hturn⟩)

theorem length_keptBy_eq (few : ∀ hosts ∈ current.values, hosts.size ≤ replicationFactor)
    (known : m ∈ members) :
    (current.keptBy members replicationFactor m).length =
      min (current.hostedBy m).length (current.fairShare members replicationFactor) := by
  have hcount := count_of_keeps (m := m) h.keeps (fun turn hturn => h.size_present_le few hturn)
    (fun _ _ _ => known) (by simp [Load.count_idle])
  rw [h.length_keptBy, hcount, Load.count_idle, Nat.zero_add, h.length_hostedBy_source]

theorem nodup_keptBy (m : MemberId) : (current.keptBy members replicationFactor m).Nodup := by
  rw [h.keptBy_eq]
  exact h.nodup_partitions.sublist (List.filter_sublist.map _)

/-- What a member keeps it hosted before, and hosts in the end. -/
theorem keptBy_subset (m : MemberId) :
    current.keptBy members replicationFactor m ⊆ (current.hostedBy m).filter fun p =>
      decide (p ∈ (current.rebalance members replicationFactor).hostedBy m) := by
  intro p hp
  rw [h.keptBy_eq] at hp
  rcases List.mem_map.1 hp with ⟨turn, hmem, rfl⟩
  rcases List.mem_filter.1 hmem with ⟨hturn, hkept⟩
  have hkept : m ∈ turn.kept := of_decide_eq_true hkept
  rcases h.keeps.exists_step hturn with ⟨load, next, hstep⟩
  have hpresent : m ∈ turn.present := mem_ranked_iff.1 (hstep.sublist.subset hkept)
  refine List.mem_filter.2 ⟨?_, decide_eq_true ?_⟩
  · rw [mem_hostedBy_iff, priority?_of_getElem? (h.getElem?_source hturn)]
    exact Std.ExtTreeMap.mem_iff_isSome_getElem?.1 hpresent
  · exact (h.mem_hostedBy_target_iff hturn).2 (List.mem_append_left _ hkept)

end Account

/-! ## What a member loses -/

/-- Partitions with no more hosts than the replication factor are rebalanced over distinct members.
Each of them still hosts as many of the partitions that it hosted as its fair share says, or all of
them if they are fewer.  So a member up to its fair share loses nothing, and any other one loses no
more than what it has beyond that. -/
theorem rebalance_keeps_share (current : Placement) {members : List MemberId}
    {replicationFactor : Nat} (distinct : members.Nodup) (positive : 1 ≤ replicationFactor)
    (enough : replicationFactor ≤ members.length)
    (few : ∀ hosts ∈ current.values, hosts.size ≤ replicationFactor) :
    let share := current.size * replicationFactor / members.length
    let target := current.rebalance members replicationFactor
    ∀ m ∈ members,
      let hosted := current.hostedBy m
      min hosted.length share ≤ (hosted.filter (· ∈ target.hostedBy m)).length ∧
      (hosted.length ≤ share → ∀ p ∈ hosted, p ∈ target.hostedBy m) ∧
      (hosted.filter (· ∉ target.hostedBy m)).length ≤ hosted.length - share := by
  intro share target m hm hosted
  have henough : replicationFactor ≤ members.dedup.length := by rwa [distinct.dedup]
  rcases exists_account current (ne_nil_of_enough positive henough) henough with
    ⟨turns, base, final, haccount⟩
  have hkept : min hosted.length share ≤ (hosted.filter (· ∈ target.hostedBy m)).length := by
    calc min hosted.length share
      _ = (current.keptBy members replicationFactor m).length :=
        (haccount.length_keptBy_eq few hm).symm
      _ ≤ (hosted.filter (· ∈ target.hostedBy m)).length :=
        ((haccount.nodup_keptBy m).subperm (haccount.keptBy_subset m)).length_le
  -- What is kept and what is lost adds up to what there was.
  have hsplit : hosted.length = (hosted.filter (· ∈ target.hostedBy m)).length +
      (hosted.filter (· ∉ target.hostedBy m)).length := by
    simpa using List.length_eq_length_filter_add (l := hosted) (decide <| · ∈ target.hostedBy m)
  refine ⟨hkept, fun hfew => ?_, by omega⟩
  have hall : (hosted.filter (· ∈ target.hostedBy m)).length = hosted.length := by
    have hle := List.length_filter_le (fun p => decide (p ∈ target.hostedBy m)) hosted
    omega
  simpa using List.length_filter_eq_length_iff.1 hall

/-- Two of the four partitions of `a` would be its fair share, and `x` has to go. -/
theorem rebalance_keeps_share_excess :
    let current : Placement := .ofList [(1, Priorities.descending ["a", "x"]),
      (2, .descending ["a"]), (3, .descending ["b", "a"]), (4, .ofList [("a", 3)])]
    let members := ["c", "a", "b", "d"]
    let target := current.rebalance members 2
    members.Nodup ∧ 1 ≤ 2 ∧ 2 ≤ members.length ∧ (∀ hosts ∈ current.values, hosts.size ≤ 2) ∧
      (current.hostedBy "a").length = 4 ∧
      2 ≤ ((current.hostedBy "a").filter (· ∈ target.hostedBy "a")).length ∧
      ∀ p ∈ current.hostedBy "b", p ∈ target.hostedBy "b" := by
  intro current members target
  have distinct : members.Nodup := by decide
  have few : ∀ hosts ∈ current.values, hosts.size ≤ 2 := by decide +kernel
  have hkeeps := rebalance_keeps_share current distinct (by decide : 1 ≤ 2) (by decide) few
  have hshare : current.size * 2 / members.length = 2 := by decide +kernel
  have ha : (current.hostedBy "a").length = 4 := by decide +kernel
  have hb : (current.hostedBy "b").length = 1 := by decide +kernel
  simp only [hshare] at hkeeps
  refine ⟨distinct, by decide, by decide, few, ha, ?_, ?_⟩
  · have hkept := (hkeeps "a" (by decide)).1
    rwa [ha] at hkept
  · exact (hkeeps "b" (by decide)).2.1 (by omega)

end Placement

end ReplicaCluster
