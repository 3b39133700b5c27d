import Mathlib.Data.List.Perm.Subperm
import ReplicaCluster.Placement.Load
import ReplicaCluster.Proofs.Topology.Placement

/-!
# Choosing hosts

Hosts are chosen one after the other from the members that a load lists, each of them once
(`Selection`).  No step adds or drops a member of the load, and as long as fewer are chosen than
there are members, one more can be found (`Load.exists_nextHost?`).
-/

namespace ReplicaCluster

/-! ## The lightest element -/

section Lightest

variable {α : Type} {weight : α → Nat} {xs : List α} {x : α}

theorem mem_of_lightest? (h : lightest? weight xs = some x) : x ∈ xs := by
  induction xs generalizing x with
  | nil => simp [lightest?] at h
  | cons y rest ih =>
      simp only [lightest?] at h
      cases hrest : lightest? weight rest with
      | none =>
          have hx : y = x := by simpa [hrest] using h
          exact hx ▸ List.mem_cons_self
      | some z =>
          by_cases hlighter : weight z < weight y
          · have hx : z = x := by simpa [hrest, hlighter] using h
            exact hx ▸ List.mem_cons_of_mem y (ih hrest)
          · have hx : y = x := by simpa [hrest, hlighter] using h
            exact hx ▸ List.mem_cons_self

theorem isSome_lightest?_of_mem (h : x ∈ xs) : (lightest? weight xs).isSome := by
  cases xs with
  | nil => cases h
  | cons y rest =>
      simp only [lightest?]
      split
      · split <;> rfl
      · rfl

theorem weight_le_of_lightest? {y : α} (h : lightest? weight xs = some x) (hy : y ∈ xs) :
    weight x ≤ weight y := by
  induction xs generalizing x with
  | nil => cases hy
  | cons first rest ih =>
      simp only [lightest?] at h
      cases hrest : lightest? weight rest with
      | none =>
          have hx : first = x := by simpa [hrest] using h
          rcases List.mem_cons.1 hy with rfl | hlater
          · rw [hx]
          · have hsome : (lightest? weight rest).isSome := isSome_lightest?_of_mem hlater
            simp [hrest] at hsome
      | some z =>
          rw [hrest] at h ih
          by_cases hlighter : weight z < weight first
          · have hx : z = x := by simpa [hlighter] using h
            rcases List.mem_cons.1 hy with rfl | hlater
            · exact hx ▸ hlighter.le
            · exact hx ▸ ih rfl hlater
          · have hx : first = x := by simpa [hlighter] using h
            rcases List.mem_cons.1 hy with rfl | hlater
            · rw [hx]
            · exact hx ▸ (Nat.le_of_not_lt hlighter).trans (ih rfl hlater)

end Lightest

/-! ## Ranks -/

namespace Priorities

variable {p : Priorities} {m : MemberId}

theorem insertRanked_perm (e : MemberId × Priority) (xs : List (MemberId × Priority)) :
    (insertRanked e xs).Perm (e :: xs) := by
  induction xs with
  | nil => exact .refl _
  | cons x rest ih =>
      simp only [insertRanked]
      split
      · exact .refl _
      · exact (ih.cons x).trans (.swap e x rest)

theorem foldr_insertRanked_perm (xs : List (MemberId × Priority)) :
    (xs.foldr insertRanked []).Perm xs := by
  induction xs with
  | nil => exact .refl _
  | cons e rest ih => exact (insertRanked_perm e _).trans (ih.cons e)

theorem ranked_perm (p : Priorities) : p.ranked.Perm p.keys := by
  calc p.ranked
    _ = (p.toList.foldr insertRanked []).map (·.1) := rfl
    List.Perm _ (p.toList.map (·.1)) := (foldr_insertRanked_perm p.toList).map (·.1)
    _ = p.keys := Std.ExtTreeMap.map_fst_toList_eq_keys

theorem nodup_ranked (p : Priorities) : p.ranked.Nodup :=
  p.ranked_perm.nodup_iff.2 Std.ExtTreeMap.nodup_keys

theorem length_ranked (p : Priorities) : p.ranked.length = p.size :=
  p.ranked_perm.length_eq.trans Std.ExtTreeMap.length_keys

theorem mem_ranked_iff : m ∈ p.ranked ↔ m ∈ p :=
  p.ranked_perm.mem_iff.trans Std.ExtTreeMap.mem_keys

end Priorities

/-! ## Choosing hosts -/

/-- Distinct hosts out of a list of members. -/
structure Selection (members chosen : List MemberId) : Prop where
  nodup : chosen.Nodup
  subset : ∀ m ∈ chosen, m ∈ members

namespace Selection

variable {members chosen : List MemberId} {m : MemberId}

theorem concat (h : Selection members chosen) (known : m ∈ members) (free : m ∉ chosen) :
    Selection members (chosen ++ [m]) := by
  refine ⟨?_, ?_⟩
  · refine h.nodup.append (List.nodup_singleton m) ?_
    simpa using free
  · intro other hother
    rcases List.mem_append.1 hother with hchosen | hlast
    · exact h.subset other hchosen
    · rw [List.mem_singleton.1 hlast]
      exact known

theorem dedup (h : Selection members chosen) : Selection members.dedup chosen :=
  ⟨h.nodup, fun m hm => List.mem_dedup.2 (h.subset m hm)⟩

theorem length_le (h : Selection members chosen) : chosen.length ≤ members.length :=
  (h.nodup.subperm h.subset).length_le

/-- As many distinct hosts as there are members are all of them. -/
theorem mem_iff_of_length_le (h : Selection members chosen)
    (all : members.length ≤ chosen.length) : m ∈ chosen ↔ m ∈ members :=
  ((h.nodup.subperm h.subset).perm_of_length_le all).mem_iff

end Selection

theorem ne_nil_of_enough {members : List MemberId} {n : Nat} (positive : 1 ≤ n)
    (enough : n ≤ members.dedup.length) : members ≠ [] := by
  rintro rfl
  simp only [List.dedup_nil, List.length_nil] at enough
  omega

theorem exists_mem_of_length_lt {members chosen : List MemberId} (distinct : members.Nodup)
    (h : chosen.length < members.length) : ∃ m ∈ members, m ∉ chosen := by
  by_contra hnone
  have hsubset : members ⊆ chosen := by
    intro m hm
    by_contra hfree
    exact hnone ⟨m, hm, hfree⟩
  exact absurd (distinct.subperm hsubset).length_le (Nat.not_le.2 h)

/-- Hosts that are as many as the members at most leave out a member if one of them is none. -/
theorem exists_mem_of_length_le {members chosen : List MemberId} {other : MemberId}
    (distinct : members.Nodup) (h : chosen.length ≤ members.length) (hother : other ∈ chosen)
    (free : other ∉ members) : ∃ m ∈ members, m ∉ chosen := by
  by_contra hnone
  have hselection : Selection chosen members := by
    refine ⟨distinct, fun m hm => ?_⟩
    by_contra hnot
    exact hnone ⟨m, hm, hnot⟩
  exact free ((hselection.mem_iff_of_length_le h).2 hother)

namespace Load

variable {load : Load} {present : Priorities} {members chosen : List MemberId} {m : MemberId}

/-- The load lists exactly these members. -/
def Lists (load : Load) (members : List MemberId) : Prop := ∀ m, m ∈ load ↔ m ∈ members

theorem lists_idle (members : List MemberId) : (idle members).Lists members := by
  intro m
  simp [idle, Std.ExtTreeMap.mem_ofList, Function.comp_def]

theorem Lists.increment (h : load.Lists members) (m : MemberId) :
    (load.increment m).Lists members := by
  intro other
  exact Std.ExtTreeMap.mem_modify.trans (h other)

theorem mem_of_nextHost? (h : load.nextHost? present chosen = some m) : m ∈ load ∧ m ∉ chosen := by
  rcases Option.map_eq_some_iff.1 h with ⟨⟨_, count⟩, hlightest, rfl⟩
  rcases List.mem_filter.1 (mem_of_lightest? hlightest) with ⟨hmem, hfree⟩
  refine ⟨?_, by simpa using hfree⟩
  rw [Std.ExtTreeMap.mem_toList_iff_getElem?_eq_some] at hmem
  exact SortedMap.mem_iff_exists.2 ⟨_, hmem⟩

theorem exists_nextHost? (known : m ∈ load) (free : m ∉ chosen) :
    ∃ next, load.nextHost? present chosen = some next := by
  rcases SortedMap.mem_iff_exists.1 known with ⟨count, hcount⟩
  have hfree : (m, count) ∈ load.toList.filter fun e => !chosen.contains e.1 := by
    refine List.mem_filter.2 ⟨?_, by simpa using free⟩
    exact Std.ExtTreeMap.mem_toList_iff_getElem?_eq_some.2 hcount
  exact Option.isSome_iff_exists.1 (by
    simpa only [nextHost?, Option.isSome_map] using isSome_lightest?_of_mem hfree)

end Load

end ReplicaCluster
