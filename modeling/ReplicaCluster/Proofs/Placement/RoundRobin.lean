import Mathlib.Data.Int.CardIntervalMod
import ReplicaCluster.Placement.RoundRobin
import ReplicaCluster.Proofs.Placement.Ranking

/-!
# Partitions in turn

A round-robin placement puts partition `p` on the members that follow place `p - 1` around the ring
(`Placement.getElem?_roundRobin`).  No more members follow than there are in the ring, so none of
them is met twice (`Placement.nodup_successors`).  The first one leads, and the turns of the members
to lead come round evenly (`Placement.countP_turns`).
-/

namespace ReplicaCluster

namespace Placement

open Priorities

variable {ring : Array MemberId} {members : List MemberId} {m : MemberId}
  {offset count i j p partitionCount replicationFactor : Nat}

/-! ## Around the ring -/

theorem successors_succ (nonempty : 0 < ring.size) (offset count : Nat) : ∃ m,
    ring[(offset + count) % ring.size]? = some m ∧
      successors ring offset (count + 1) = successors ring offset count ++ [m] := by
  have hplace : (offset + count) % ring.size < ring.size := Nat.mod_lt _ nonempty
  refine ⟨ring[(offset + count) % ring.size], Array.getElem?_eq_getElem hplace, ?_⟩
  simp [successors, List.range_succ, List.filterMap_append, Array.getElem?_eq_getElem hplace]

theorem mem_of_mem_successors (h : m ∈ successors ring offset count) : m ∈ ring := by
  rcases List.mem_filterMap.1 h with ⟨j, -, hj⟩
  exact Array.mem_of_getElem? hj

theorem length_successors (nonempty : 0 < ring.size) :
    (successors ring offset count).length = count := by
  induction count with
  | zero => rfl
  | succ count ih =>
      rcases successors_succ nonempty offset count with ⟨m, -, hsucc⟩
      rw [hsucc, List.length_append, ih, List.length_singleton]

theorem getElem?_successors (nonempty : 0 < ring.size) (follows : j < count) :
    (successors ring offset count)[j]? = ring[(offset + j) % ring.size]? := by
  induction count with
  | zero => exact absurd follows (Nat.not_lt_zero j)
  | succ count ih =>
      rcases successors_succ nonempty offset count with ⟨m, hm, hsucc⟩
      have hlength : (successors ring offset count).length = count := length_successors nonempty
      rcases Nat.lt_succ_iff_lt_or_eq.1 follows with hbefore | rfl
      · rw [hsucc, List.getElem?_append_left (by omega), ih hbefore]
      · rw [hsucc, List.getElem?_append_right hlength.le, hlength, Nat.sub_self, hm,
          List.getElem?_cons_zero]

/-- Two places of a ring that are less than its size apart are different. -/
theorem eq_of_getElem?_ring (distinct : ring.toList.Nodup) (hi : i < ring.size)
    (hj : j < ring.size)
    (h : ring[(offset + i) % ring.size]? = ring[(offset + j) % ring.size]?) : i = j := by
  have hplace : (offset + i) % ring.size < ring.toList.length := Nat.mod_lt _ (by omega)
  simp only [← Array.getElem?_toList] at h
  have hmod : offset + i ≡ offset + j [MOD ring.size] := (List.getElem?_inj hplace distinct).1 h
  exact hmod.add_left_cancel'.eq_of_lt_of_lt hi hj

theorem nodup_successors (distinct : ring.toList.Nodup) (fits : count ≤ ring.size) :
    (successors ring offset count).Nodup := by
  rw [List.nodup_iff_getElem?_ne_getElem?]
  intro i j hij hj hsame
  have hcount : j < count := hj.trans_le (List.length_filterMap_le _ _ |>.trans (by simp))
  have nonempty : 0 < ring.size := by omega
  rw [getElem?_successors nonempty (hij.trans hcount), getElem?_successors nonempty hcount] at hsame
  exact hij.ne (eq_of_getElem?_ring distinct (by omega) (by omega) hsame)

/-! ## The placement -/

theorem getElem?_roundRobin (nonempty : members ≠ []) :
    (roundRobin members partitionCount replicationFactor)[p]? =
      if 1 ≤ p ∧ p ≤ partitionCount then
        some (descending
          (successors members.toArray (p - 1) (min replicationFactor members.length)))
      else none := by
  have hempty : members.isEmpty = false := by simpa using nonempty
  refine Option.ext fun hosts => ?_
  rw [roundRobin, hempty, if_neg (by simp), SortedMap.getElem?_ofList_iff ?_]
  · simp only [List.mem_map, List.mem_range, Prod.mk.injEq, List.size_toArray]
    constructor
    · rintro ⟨offset, hoffset, rfl, rfl⟩
      rw [if_pos (by omega), Nat.add_sub_cancel]
    · intro h
      split at h
      · next hp => exact ⟨p - 1, by omega, by omega, Option.some.inj h⟩
      · simp at h
  · have hnumbers : (List.range partitionCount).map (· + 1) |>.Nodup :=
      List.nodup_range.map Nat.succ_injective
    simpa [Function.comp_def] using hnumbers

/-- Each of the members that follow has the priority of its place. -/
theorem getElem?_descending_successors_iff (distinct : ring.toList.Nodup) (fits : count ≤ ring.size)
    (follows : j < count) :
    (descending (successors ring offset count))[m]? = some (count - j) ↔
      ring[(offset + j) % ring.size]? = some m := by
  have nonempty : 0 < ring.size := by omega
  rw [getElem?_descending_iff (nodup_successors distinct fits), length_successors nonempty,
    ← getElem?_successors nonempty follows]
  constructor
  · rintro ⟨i, hi, hpriority⟩
    have hbelow : i < (successors ring offset count).length := (List.getElem?_eq_some_iff.1 hi).1
    rw [length_successors nonempty] at hbelow
    have hsame : i = j := by omega
    rwa [← hsame]
  · intro hj
    exact ⟨j, hj, rfl⟩

theorem leader?_descending_successors (distinct : ring.toList.Nodup) (fits : count ≤ ring.size)
    (positive : 1 ≤ count) :
    (descending (successors ring offset count)).leader? = ring[offset % ring.size]? := by
  have nonempty : 0 < ring.size := by omega
  rw [leader?_descending (nodup_successors distinct fits), List.head?_eq_getElem?,
    getElem?_successors nonempty positive, Nat.add_zero]

/-! ## Turns -/

/-- Of the turns around the ring each member gets its even share, rounded down or up. -/
theorem countP_turns (distinct : ring.toList.Nodup) (hm : m ∈ ring) (turns : Nat) :
    let led := (List.range turns).countP fun offset => ring[offset % ring.size]? = some m
    led = turns / ring.size ∨ led = (turns + ring.size - 1) / ring.size := by
  intro led
  rcases Array.mem_iff_getElem.1 hm with ⟨v, hv, rfl⟩
  -- Each member has one place, so its turns are the numbers of one residue.
  have hled : led = turns.count (· ≡ v [MOD ring.size]) := by
    refine List.countP_congr fun offset _ => ?_
    have hplace : offset % ring.size < ring.toList.length := Nat.mod_lt _ (by omega)
    have hinj := List.getElem?_inj (j := v) hplace distinct
    simp only [Array.getElem?_toList, Array.getElem?_eq_getElem hv] at hinj
    simp only [decide_eq_true_eq, hinj, Nat.ModEq, Nat.mod_eq_of_lt hv]
  rw [hled, Nat.count_modEq_card turns (by omega : 0 < ring.size) v]
  split
  · next hmore =>
      have hsplit := Nat.div_add_mod turns ring.size
      refine .inr (Nat.div_eq_of_lt_le ?_ ?_).symm
      · rw [Nat.add_mul, Nat.mul_comm]
        omega
      · rw [Nat.add_mul, Nat.add_mul, Nat.mul_comm]
        have hrest := Nat.mod_lt turns (by omega : 0 < ring.size)
        omega
  · exact .inl (Nat.add_zero _)

end Placement

end ReplicaCluster
