import Mathlib.Algebra.BigOperators.Group.List.Basic
import Mathlib.Algebra.Order.BigOperators.Group.List
import Mathlib.Algebra.Order.Ring.Nat
import ReplicaCluster.Planning.Evacuation
import ReplicaCluster.Proofs.Placement.Selection

/-!
# Fair shares

How many partitions a member hosts is a count over the listing of the placement
(`Placement.length_hostedBy`).  Where each partition has the same number of hosts, these counts add
up (`Placement.sum_countP`), and so the fair share, which is rounded down, is never above the mean.

If no member has two replicas more than another one, then each of them has its fair share, or one
replica more than that (`Placement.share_le_of_level`, `Placement.le_share_of_level`).
-/

namespace ReplicaCluster

namespace Placement

/-- What a member has at least if it hosts as much as the others, rounded down. -/
def fairShare (current : Placement) (members : List MemberId) (replicationFactor : Nat) : Nat :=
  current.size * replicationFactor / members.length

theorem length_mul_fairShare_le (current : Placement) (members : List MemberId)
    (replicationFactor : Nat) :
    members.length * current.fairShare members replicationFactor ≤
      current.size * replicationFactor :=
  Nat.mul_div_le _ _

theorem lt_length_mul_fairShare (current : Placement) {members : List MemberId}
    (nonempty : members ≠ []) (replicationFactor : Nat) :
    current.size * replicationFactor <
      members.length * (current.fairShare members replicationFactor + 1) :=
  Nat.lt_mul_div_succ _ (List.length_pos_iff.2 nonempty)

/-! ## Listings -/

section Listing

variable {α : Type} {placement : Placement} {rows before after : List α} {row : α}
  {entry : α → PartitionId × Priorities} {m : MemberId}

theorem hostedBy_eq (listing : placement.toList = rows.map entry) (m : MemberId) :
    placement.hostedBy m =
      (rows.filter fun row => (entry row).2.contains m).map fun row => (entry row).1 := by
  rw [hostedBy, ← Std.ExtTreeMap.map_fst_toList_eq_keys, Std.ExtTreeMap.toList_filter, listing,
    List.filter_map, List.map_map]
  rfl

theorem length_hostedBy (listing : placement.toList = rows.map entry) (m : MemberId) :
    (placement.hostedBy m).length = rows.countP fun row => (entry row).2.contains m := by
  rw [hostedBy_eq listing, List.length_map, List.countP_eq_length_filter]

theorem mem_hostedBy_iff {p : PartitionId} :
    p ∈ placement.hostedBy m ↔ (placement.priority? p m).isSome := by
  rw [hostedBy, Std.ExtTreeMap.mem_keys, Std.ExtTreeMap.mem_iff_isSome_getElem?,
    Std.ExtTreeMap.getElem?_filter', priority?]
  cases placement[p]? with
  | none => rfl
  | some hosts => cases hm : hosts.contains m <;> simp [Option.filter, hm]

/-- The partitions come in ascending order. -/
theorem pairwise_of_listing (listing : placement.toList = rows.map entry) :
    rows.Pairwise fun row other => (entry row).1 < (entry other).1 := by
  have hsorted := placement.ordered_keys_toList
  rw [listing, List.pairwise_map] at hsorted
  exact hsorted.imp fun h => Nat.compare_eq_lt.1 h

end Listing

/-! ## Sums and means -/

section Means

variable {members : List MemberId} {load : MemberId → Nat} {a : MemberId} {share : Nat}

theorem sum_map_ite (p : MemberId → Bool) :
    (members.map fun m => if p m then 1 else 0).sum = members.countP p := by
  induction members with
  | nil => rfl
  | cons m rest ih =>
      rw [List.map_cons, List.sum_cons, ih, List.countP_cons, Nat.add_comm]

/-- Each of the rows counts once for each of its hosts. -/
theorem sum_countP {α : Type} {rows : List α} (hosts : α → List MemberId) {n : Nat}
    (distinct : members.Nodup)
    (each : ∀ row ∈ rows, Selection members (hosts row) ∧ (hosts row).length = n) :
    (members.map fun m => rows.countP (m ∈ hosts ·)).sum = rows.length * n := by
  induction rows with
  | nil => simp
  | cons row rest ih =>
      rcases List.forall_mem_cons.1 each with ⟨⟨hselection, hlength⟩, heach⟩
      have hperm : (members.filter (· ∈ hosts row)).Perm (hosts row) := by
        refine (List.perm_ext_iff_of_nodup (distinct.filter _) hselection.nodup).2 fun m => ?_
        simpa using hselection.subset m
      have hrow : (members.map fun m => if decide (m ∈ hosts row) then 1 else 0).sum = n := by
        rw [sum_map_ite, List.countP_eq_length_filter, hperm.length_eq, hlength]
      simp only [List.countP_cons]
      rw [List.sum_map_add, ih heach, hrow, List.length_cons, Nat.succ_mul]

theorem sum_map_const (members : List MemberId) (n : Nat) :
    (members.map fun _ => n).sum = members.length * n := by
  simp

/-- Somebody has more than the mean if somebody has less. -/
theorem exists_share_lt (mean : members.length * share ≤ (members.map load).sum)
    (ha : a ∈ members) (below : load a < share) : ∃ m ∈ members, share < load m := by
  by_contra hnone
  have hle : ∀ m ∈ members, load m ≤ share := by
    intro m hm
    by_contra hmore
    exact hnone ⟨m, hm, Nat.lt_of_not_le hmore⟩
  have hsum := List.sum_lt_sum load (fun _ => share) hle ⟨a, ha, below⟩
  rw [sum_map_const] at hsum
  omega

/-- Somebody has less than the mean if somebody has more. -/
theorem exists_lt_share (mean : (members.map load).sum ≤ members.length * share)
    (ha : a ∈ members) (above : share < load a) : ∃ m ∈ members, load m < share := by
  by_contra hnone
  have hle : ∀ m ∈ members, share ≤ load m := by
    intro m hm
    by_contra hless
    exact hnone ⟨m, hm, Nat.lt_of_not_le hless⟩
  have hsum := List.sum_lt_sum (fun _ => share) load hle ⟨a, ha, above⟩
  rw [sum_map_const] at hsum
  omega

/-- If nobody has more than the share and more than one above the load of `a`, then nobody has more
than one above the load of `a`. -/
theorem le_succ_of_bounded (mean : members.length * share ≤ (members.map load).sum)
    (ha : a ∈ members) (bounded : ∀ m ∈ members, load m ≤ max (load a + 1) share) :
    ∀ m ∈ members, load m ≤ load a + 1 := by
  intro m hm
  by_contra hmore
  have hle := bounded m hm
  rcases exists_share_lt mean ha (by omega) with ⟨other, hother, habove⟩
  have hother := bounded other hother
  omega

variable (level : ∀ a ∈ members, ∀ b ∈ members, load a ≤ load b + 1)

include level

theorem share_le_of_level (mean : members.length * share ≤ (members.map load).sum)
    (ha : a ∈ members) : share ≤ load a := by
  by_contra hless
  rcases exists_share_lt mean ha (Nat.lt_of_not_le hless) with ⟨m, hm, hmore⟩
  have hlevel := level m hm a ha
  omega

theorem le_share_of_level (mean : (members.map load).sum ≤ members.length * (share + 1))
    (ha : a ∈ members) : load a ≤ share + 1 := by
  by_contra hmore
  rcases exists_lt_share mean ha (Nat.lt_of_not_le hmore) with ⟨m, hm, hless⟩
  have hlevel := level a ha m hm
  omega

end Means

end Placement

end ReplicaCluster
