import Mathlib.Data.String.Basic
import ReplicaCluster.Proofs.Placement.Selection

/-!
# The leader of a partition

The leader is the host that outranks all others: it has the highest priority, and among those of
that priority the least name (`Priorities.leader?_eq_some_iff`).
-/

namespace ReplicaCluster

namespace Priorities

variable {p : Priorities} {e x y : MemberId × Priority} {xs : List (MemberId × Priority)}
  {m : MemberId}

/-- The one host is ranked before the other, or it is the same. -/
def Outranks (e x : MemberId × Priority) : Prop := x.2 < e.2 ∨ x.2 = e.2 ∧ e.1 ≤ x.1

theorem Outranks.refl (e : MemberId × Priority) : Outranks e e := Or.inr ⟨rfl, le_refl _⟩

theorem Outranks.antisymm (h : Outranks e x) (h' : Outranks x e) : e = x := by
  rcases h with hlower | ⟨hsame, hbefore⟩
  · rcases h' with hlower' | ⟨hsame', -⟩
    · exact absurd hlower' hlower.asymm
    · exact absurd hsame' hlower.ne'
  · rcases h' with hlower' | ⟨-, hbefore'⟩
    · exact absurd hsame hlower'.ne'
    · exact Prod.ext (le_antisymm hbefore hbefore') hsame.symm

/-- An entry with a lesser name than all others finds its place. -/
theorem pairwise_insertRanked (first : ∀ x ∈ xs, e.1 < x.1) (ranked : xs.Pairwise Outranks) :
    (insertRanked e xs).Pairwise Outranks := by
  induction xs with
  | nil => exact List.pairwise_singleton _ _
  | cons y rest ih =>
      rcases List.forall_mem_cons.1 first with ⟨hy, hfirst⟩
      rcases List.pairwise_cons.1 ranked with ⟨houtranks, hranked⟩
      simp only [insertRanked]
      by_cases hplace : y.2 ≤ e.2
      · rw [if_pos hplace]
        refine List.pairwise_cons.2 ⟨fun x hx => ?_, ranked⟩
        -- Nothing from `y` on has a higher priority than `y`.
        have hpriority : x.2 ≤ y.2 := by
          rcases List.mem_cons.1 hx with rfl | hrest
          · exact le_refl _
          · rcases houtranks x hrest with hlower | ⟨hsame, -⟩
            · exact hlower.le
            · exact hsame.le
        rcases (hpriority.trans hplace).lt_or_eq with hlower | hsame
        · exact Or.inl hlower
        · exact Or.inr ⟨hsame, (first x hx).le⟩
      · rw [if_neg hplace]
        refine List.pairwise_cons.2 ⟨fun x hx => ?_, ih hfirst hranked⟩
        rcases List.mem_cons.1 ((insertRanked_perm e rest).mem_iff.1 hx) with rfl | hrest
        · exact Or.inl (Nat.lt_of_not_le hplace)
        · exact houtranks x hrest

/-- Entries in the order of their names are sorted by their ranks. -/
theorem pairwise_foldr_insertRanked (ordered : xs.Pairwise fun a b => a.1 < b.1) :
    (xs.foldr insertRanked []).Pairwise Outranks := by
  induction xs with
  | nil => exact .nil
  | cons e rest ih =>
      rcases List.pairwise_cons.1 ordered with ⟨hfirst, hrest⟩
      refine pairwise_insertRanked (fun x hx => hfirst x ?_) (ih hrest)
      exact (foldr_insertRanked_perm rest).mem_iff.1 hx

theorem pairwise_toList (p : Priorities) : p.toList.Pairwise fun a b => a.1 < b.1 :=
  p.ordered_keys_toList.imp fun h => compare_lt_iff_lt.1 h

theorem exists_best_of_leader? (h : p.leader? = some m) : ∃ priority, p[m]? = some priority ∧
    ∀ (other : MemberId) (k : Priority), p[other]? = some k →
      Outranks (m, priority) (other, k) := by
  rw [leader?, ranked, List.head?_map] at h
  rcases Option.map_eq_some_iff.1 h with ⟨⟨_, priority⟩, hhead, rfl⟩
  rcases List.head?_eq_some_iff.1 hhead with ⟨rest, hentries⟩
  have hranked := pairwise_foldr_insertRanked p.pairwise_toList
  have hperm := foldr_insertRanked_perm p.toList
  rw [hentries] at hranked hperm
  refine ⟨priority, ?_, fun other k hk => ?_⟩
  · exact Std.ExtTreeMap.mem_toList_iff_getElem?_eq_some.1 (hperm.mem_iff.1 List.mem_cons_self)
  · have hmem := hperm.mem_iff.2 (Std.ExtTreeMap.mem_toList_iff_getElem?_eq_some.2 hk)
    rcases List.mem_cons.1 hmem with hsame | hlater
    · exact hsame ▸ .refl _
    · exact (List.pairwise_cons.1 hranked).1 _ hlater

theorem leader?_eq_none_iff : p.leader? = none ↔ ∀ m : MemberId, p[m]? = none := by
  rw [leader?, List.head?_eq_none_iff, List.eq_nil_iff_forall_not_mem]
  refine forall_congr' fun m => ?_
  rw [mem_ranked_iff, Std.ExtTreeMap.mem_iff_isSome_getElem?, Option.not_isSome_iff_eq_none]

theorem leader?_eq_some_iff : p.leader? = some m ↔ ∃ priority, p[m]? = some priority ∧
    ∀ (other : MemberId) (k : Priority), p[other]? = some k →
      Outranks (m, priority) (other, k) := by
  constructor
  · exact exists_best_of_leader?
  · rintro ⟨priority, hm, hbest⟩
    cases hleader : p.leader? with
    | none => simp [leader?_eq_none_iff.1 hleader m] at hm
    | some other =>
        rcases exists_best_of_leader? hleader with ⟨k, hk, hbest'⟩
        have hsame := (hbest other k hk).antisymm (hbest' m priority hm)
        rw [(Prod.mk.inj hsame).1]

end Priorities

end ReplicaCluster
