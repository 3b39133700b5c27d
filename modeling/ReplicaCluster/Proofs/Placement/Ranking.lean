import ReplicaCluster.Proofs.Placement.Leader
import ReplicaCluster.Proofs.Placement.Rebalance

/-!
# Ranks

The hosts of a partition are ranked by descending priority, and hosts of one priority by their names
(`Priorities.pairwise_ranked`).  Where the priorities are the numbers from the count of the hosts
down to 1, the order of the ranks determines all of them (`Priorities.Numbered.descending_ranked`).

Rebalancing numbers its hosts in this way.  It keeps the order of those that were there and puts
them before the new ones (`Placement.rebalance_keeps_ranks`).
-/

namespace ReplicaCluster

namespace Priorities

variable {p present : Priorities} {hosts chosen : List MemberId} {m a b : MemberId} {k n : Nat}

/-! ## Descending priorities -/

/-- The partition has `n` hosts, and their priorities are the numbers from `n` down to 1. -/
structure Numbered (p : Priorities) (n : Nat) : Prop where
  size : p.size = n
  exists_host_iff : ∀ k : Nat, (∃ m : MemberId, p[m]? = some k) ↔ 1 ≤ k ∧ k ≤ n

theorem map_fst_zipIdx (hosts : List MemberId) (n : Nat) :
    (hosts.zipIdx.map fun (m, i) => (m, n - i)).map (·.1) = hosts := by
  simp [Function.comp_def]

/-- Of distinct hosts each one has the priority that its place says. -/
theorem getElem?_descending_iff (distinct : hosts.Nodup) :
    (descending hosts)[m]? = some k ↔ ∃ i, hosts[i]? = some m ∧ hosts.length - i = k := by
  rw [descending, SortedMap.getElem?_ofList_iff (by rwa [map_fst_zipIdx])]
  simp only [List.mem_map, Prod.exists, List.mem_zipIdx_iff_getElem?, Prod.mk.injEq]
  constructor
  · rintro ⟨m', i, hi, rfl, hk⟩
    exact ⟨i, hi, hk⟩
  · rintro ⟨i, hi, hk⟩
    exact ⟨m, i, hi, rfl, hk⟩

theorem size_descending (distinct : hosts.Nodup) : (descending hosts).size = hosts.length := by
  rw [descending, Std.ExtTreeMap.size_ofList]
  · simp
  · have hkeys : ((hosts.zipIdx.map fun (m, i) => (m, hosts.length - i)).map (·.1)).Nodup := by
      rwa [map_fst_zipIdx]
    simpa [List.Nodup, List.pairwise_map] using hkeys

theorem numbered_descending (distinct : hosts.Nodup) :
    (descending hosts).Numbered hosts.length := by
  refine ⟨size_descending distinct, fun k => ?_⟩
  simp only [getElem?_descending_iff distinct]
  constructor
  · rintro ⟨m, i, hi, rfl⟩
    have hbelow : i < hosts.length := (List.getElem?_eq_some_iff.1 hi).1
    omega
  · rintro ⟨hpos, hle⟩
    have hbelow : hosts.length - k < hosts.length := by omega
    exact ⟨hosts[hosts.length - k], _, List.getElem?_eq_getElem hbelow, by omega⟩

theorem leader?_descending (distinct : hosts.Nodup) : (descending hosts).leader? = hosts.head? := by
  cases hosts with
  | nil => rfl
  | cons first rest =>
      refine leader?_eq_some_iff.2 ⟨(first :: rest).length, ?_, fun other k hk => ?_⟩
      · exact (getElem?_descending_iff distinct).2 ⟨0, rfl, rfl⟩
      · rcases (getElem?_descending_iff distinct).1 hk with ⟨i, hi, rfl⟩
        cases i with
        | zero =>
            cases hi
            exact .refl _
        | succ i =>
            have hlower : rest.length + 1 - (i + 1) < rest.length + 1 := by omega
            exact Or.inl hlower

/-! ## Ranks -/

theorem pairwise_ranked (p : Priorities) :
    p.ranked.Pairwise fun a b => ∀ x y : Priority, p[a]? = some x → p[b]? = some y →
      Outranks (a, x) (b, y) := by
  have hentry : ∀ e ∈ p.toList.foldr insertRanked [], ∀ x : Priority, p[e.1]? = some x →
      (e.1, x) = e := by
    intro e he x hx
    have hmem := (foldr_insertRanked_perm p.toList).mem_iff.1 he
    rw [Std.ExtTreeMap.mem_toList_iff_getElem?_eq_some.1 hmem] at hx
    exact Prod.ext rfl (Option.some.inj hx).symm
  rw [ranked, List.pairwise_map]
  refine (pairwise_foldr_insertRanked p.pairwise_toList).imp_of_mem ?_
  intro e e' he he' houtranks x y hx hy
  rw [hentry e he x hx, hentry e' he' y hy]
  exact houtranks

theorem nodup_numbers (n : Nat) : ((List.range n).map (n - ·)).Nodup :=
  List.nodup_range.map_on fun i hi j hj hij => by
    rw [List.mem_range] at hi hj
    omega

theorem Numbered.length_ranked (h : p.Numbered n) : p.ranked.length = n :=
  p.length_ranked.trans h.size

/-- The priorities of numbered hosts in the order of their ranks. -/
theorem Numbered.map_ranked (h : p.Numbered n) :
    p.ranked.map (fun m => p.getD m 0) = (List.range n).map (n - ·) := by
  have hsubset : (List.range n).map (n - ·) ⊆ p.ranked.map fun m => p.getD m 0 := by
    intro k hk
    rcases List.mem_map.1 hk with ⟨i, hi, rfl⟩
    rw [List.mem_range] at hi
    rcases (h.exists_host_iff (n - i)).2 ⟨by omega, by omega⟩ with ⟨m, hm⟩
    refine List.mem_map.2 ⟨m, mem_ranked_iff.2 ?_, ?_⟩
    · simp [Std.ExtTreeMap.mem_iff_isSome_getElem?, hm]
    · simp [Std.ExtTreeMap.getD_eq_getD_getElem?, hm]
  -- There are as many hosts as numbers, and each number is the priority of a host.
  have hperm : ((List.range n).map (n - ·)).Perm (p.ranked.map fun m => p.getD m 0) :=
    ((nodup_numbers n).subperm hsubset).perm_of_length_le (by simp [h.length_ranked])
  have hnumbers : ((List.range n).map (n - ·)).Pairwise fun x y => y ≤ x := by
    rw [List.pairwise_map]
    exact List.pairwise_lt_range.imp fun hij => Nat.sub_le_sub_left hij.le n
  have hranked : (p.ranked.map fun m => p.getD m 0).Pairwise fun x y : Nat => y ≤ x := by
    rw [List.pairwise_map]
    refine p.pairwise_ranked.imp_of_mem ?_
    intro a b ha hb houtranks
    rcases SortedMap.mem_iff_exists.1 (mem_ranked_iff.1 ha) with ⟨x, hx⟩
    rcases SortedMap.mem_iff_exists.1 (mem_ranked_iff.1 hb) with ⟨y, hy⟩
    simp only [Std.ExtTreeMap.getD_eq_getD_getElem?, hx, hy, Option.getD_some]
    rcases houtranks x y hx hy with hlower | ⟨hsame, -⟩
    · exact hlower.le
    · exact hsame.le
  exact hperm.symm.eq_of_pairwise (fun _ _ _ _ hab hba => le_antisymm hba hab) hranked hnumbers

/-- Numbered hosts have different priorities. -/
theorem Numbered.eq_of_priority (h : p.Numbered n) (ha : p[a]? = some k) (hb : p[b]? = some k) :
    a = b := by
  have hdistinct : (p.ranked.map fun m => p.getD m 0).Nodup := by
    rw [h.map_ranked]
    exact nodup_numbers n
  have hmem : ∀ m : MemberId, p[m]? = some k → m ∈ p.ranked := fun m hm =>
    mem_ranked_iff.2 (SortedMap.mem_iff_exists.2 ⟨_, hm⟩)
  refine List.inj_on_of_nodup_map hdistinct (hmem a ha) (hmem b hb) ?_
  simp [Std.ExtTreeMap.getD_eq_getD_getElem?, ha, hb]

/-- Numbered hosts are determined by the order of their ranks. -/
theorem Numbered.descending_ranked (h : p.Numbered n) : descending p.ranked = p := by
  -- The host in each place has the priority that goes with it.
  have hplace : ∀ (i : Nat) (m : MemberId), p.ranked[i]? = some m → p[m]? = some (n - i) := by
    intro i m hi
    have hbelow : i < n := h.length_ranked ▸ (List.getElem?_eq_some_iff.1 hi).1
    have hpriority : (p.ranked.map fun m => p.getD m 0)[i]? = some (n - i) := by
      rw [h.map_ranked, List.getElem?_map, List.getElem?_range hbelow, Option.map_some]
    rw [List.getElem?_map, hi, Option.map_some, Option.some.injEq] at hpriority
    have hmem : m ∈ p := mem_ranked_iff.1 (List.mem_of_getElem? hi)
    rcases SortedMap.mem_iff_exists.1 hmem with ⟨x, hx⟩
    rw [hx, ← hpriority, Std.ExtTreeMap.getD_eq_getD_getElem?, hx, Option.getD_some]
  refine Std.ExtTreeMap.ext_getElem? fun m => Option.ext fun k => ?_
  rw [getElem?_descending_iff p.nodup_ranked, h.length_ranked]
  constructor
  · rintro ⟨i, hi, rfl⟩
    exact hplace i m hi
  · intro hm
    have hranked : m ∈ p.ranked :=
      mem_ranked_iff.2 (SortedMap.mem_iff_exists.2 ⟨_, hm⟩)
    rcases List.getElem?_of_mem hranked with ⟨i, hi⟩
    refine ⟨i, hi, ?_⟩
    have hsame := (hplace i m hi).symm.trans hm
    exact Option.some.inj hsame

end Priorities

namespace Placement

open Priorities

variable {present : Priorities} {chosen members : List MemberId} {a b m : MemberId}
  {replicationFactor : Nat}

/-! ## The ranks of chosen hosts -/

/-- The chosen hosts in the order of their new ranks. -/
def ordered (present : Priorities) (chosen : List MemberId) : List MemberId :=
  present.ranked.filter chosen.contains ++ chosen.filter fun m => !present.contains m

theorem rank_eq (present : Priorities) (chosen : List MemberId) :
    rank present chosen = .descending (ordered present chosen) := rfl

theorem not_contains_iff : (!present.contains m) = true ↔ present[m]? = none := by
  rw [Std.ExtTreeMap.contains_eq_isSome_getElem?]
  cases present[m]? <;> simp

theorem mem_ordered_iff : m ∈ ordered present chosen ↔ m ∈ chosen := by
  simp only [ordered, List.mem_append, List.mem_filter, List.contains_iff_mem, mem_ranked_iff,
    not_contains_iff, Std.ExtTreeMap.mem_iff_isSome_getElem?]
  cases present[m]? <;> simp

theorem nodup_ordered (distinct : chosen.Nodup) : (ordered present chosen).Nodup := by
  refine (present.nodup_ranked.filter _).append (distinct.filter _) ?_
  intro m hsurvivor hnew
  have hpresent := mem_ranked_iff.1 (List.mem_filter.1 hsurvivor).1
  have habsent := not_contains_iff.1 (List.mem_filter.1 hnew).2
  simp [Std.ExtTreeMap.mem_iff_isSome_getElem?, habsent] at hpresent

theorem ordered_perm (present : Priorities) (distinct : chosen.Nodup) :
    (ordered present chosen).Perm chosen :=
  (List.perm_ext_iff_of_nodup (nodup_ordered distinct) distinct).2 fun _ => mem_ordered_iff

/-- Whoever comes after another host was no host before, or was one with a lower rank. -/
theorem pairwise_ordered (present : Priorities) (chosen : List MemberId) :
    (ordered present chosen).Pairwise fun a b => ∀ y : Priority, present[b]? = some y →
      ∃ x : Priority, present[a]? = some x ∧ Outranks (a, x) (b, y) := by
  have hstays : ∀ m ∈ present.ranked.filter chosen.contains, (present[m]?).isSome := fun m hm =>
    Std.ExtTreeMap.mem_iff_isSome_getElem?.1 (mem_ranked_iff.1 (List.mem_filter.1 hm).1)
  have hnew : ∀ m ∈ chosen.filter (fun m => !present.contains m), present[m]? = none := fun m hm =>
    not_contains_iff.1 (List.mem_filter.1 hm).2
  refine List.pairwise_append.2 ⟨?_, ?_, fun a _ b hb y hy => ?_⟩
  · refine (present.pairwise_ranked.filter _).imp_of_mem fun {a b} ha _ houtranks y hy => ?_
    rcases Option.isSome_iff_exists.1 (hstays a ha) with ⟨x, hx⟩
    exact ⟨x, hx, houtranks x y hx hy⟩
  · refine List.pairwise_of_forall_mem_list fun a _ b hb y hy => ?_
    simp [hnew b hb] at hy
  · simp [hnew b hb] at hy

theorem numbered_rank (distinct : chosen.Nodup) :
    (rank present chosen).Numbered chosen.length := by
  rw [rank_eq, ← (ordered_perm present distinct).length_eq]
  exact numbered_descending (nodup_ordered distinct)

section Ranks

variable {x' y' : Nat}

/-- Of two chosen hosts the one with the lower priority comes later. -/
theorem ahead_of_rank_lt (distinct : chosen.Nodup) (ha : (rank present chosen)[a]? = some x')
    (hb : (rank present chosen)[b]? = some y') (lower : y' < x') :
    ∀ y : Priority, present[b]? = some y →
      ∃ x : Priority, present[a]? = some x ∧ Outranks (a, x) (b, y) := by
  rw [rank_eq, getElem?_descending_iff (nodup_ordered distinct)] at ha hb
  rcases ha with ⟨i, hi, rfl⟩
  rcases hb with ⟨j, hj, rfl⟩
  rcases List.getElem?_eq_some_iff.1 hi with ⟨hi', rfl⟩
  rcases List.getElem?_eq_some_iff.1 hj with ⟨hj', rfl⟩
  exact List.pairwise_iff_getElem.1 (pairwise_ordered present chosen) i j hi' hj' (by omega)

/-- Hosts of before are ranked as before. -/
theorem rank_le_iff (distinct : chosen.Nodup) (ha : (rank present chosen)[a]? = some x')
    (hb : (rank present chosen)[b]? = some y') {x y : Priority} (hx : present[a]? = some x)
    (hy : present[b]? = some y) : y' ≤ x' ↔ Outranks (a, x) (b, y) := by
  constructor
  · intro hle
    rcases hle.lt_or_eq with hlower | hsame
    · rcases ahead_of_rank_lt distinct ha hb hlower y hy with ⟨z, hz, houtranks⟩
      rw [hx] at hz
      exact Option.some.inj hz ▸ houtranks
    · -- Chosen hosts of one rank are one host.
      have hab : a = b := (numbered_rank distinct).eq_of_priority (hsame ▸ ha) hb
      subst hab
      rw [hx] at hy
      exact Option.some.inj hy ▸ .refl _
  · intro houtranks
    by_contra hhigher
    rcases ahead_of_rank_lt distinct hb ha (Nat.lt_of_not_le hhigher) x hx with
      ⟨z, hz, houtranks'⟩
    rw [hy] at hz
    cases hz
    have hab : a = b := (Prod.mk.inj (houtranks.antisymm houtranks')).1
    subst hab
    rw [ha] at hb
    cases hb
    exact hhigher (le_refl _)

/-- Hosts of before are ranked above all new ones. -/
theorem rank_lt_of_new (distinct : chosen.Nodup) (ha : (rank present chosen)[a]? = some x')
    (hb : (rank present chosen)[b]? = some y') (stays : (present[a]?).isSome)
    (new : present[b]? = none) : y' < x' := by
  by_contra hhigher
  rcases Option.isSome_iff_exists.1 stays with ⟨x, hx⟩
  rcases (Nat.le_of_not_lt hhigher).lt_or_eq with hlower | hsame
  · rcases ahead_of_rank_lt distinct hb ha hlower x hx with ⟨z, hz, -⟩
    simp [new] at hz
  · have hab : a = b := (numbered_rank distinct).eq_of_priority (hsame ▸ ha) hb
    simp [← hab, hx] at new

end Ranks

/-! ## Rebalancing keeps ranks -/

/-- Over a list of enough different members, rebalancing gives each partition as many hosts as the
replication factor says, all from the list and numbered by descending priority.  Hosts of before
keep the order that they had, and they rank above all new hosts.  So a leader that stays a host
stays the leader. -/
theorem rebalance_keeps_ranks (current : Placement) (members : List MemberId)
    (replicationFactor : Nat) (positive : 1 ≤ replicationFactor)
    (enough : replicationFactor ≤ members.dedup.length) :
    let target := current.rebalance members replicationFactor
    (∀ p, p ∈ target ↔ p ∈ current) ∧
      ∀ (p : PartitionId) (present hosts : Priorities), current[p]? = some present →
        target[p]? = some hosts →
        hosts.Numbered replicationFactor ∧ (∀ m ∈ hosts, m ∈ members) ∧
        (∀ (a b : MemberId) (x y x' y' : Priority), present[a]? = some x → present[b]? = some y →
          hosts[a]? = some x' → hosts[b]? = some y' → (y' ≤ x' ↔ Outranks (a, x) (b, y))) ∧
        (∀ (a b : MemberId) (x' y' : Priority), a ∈ present → b ∉ present →
          hosts[a]? = some x' → hosts[b]? = some y' → y' < x') ∧
        ∀ leader, present.leader? = some leader → leader ∈ hosts →
          hosts.leader? = some leader := by
  intro target
  have hnonempty := ne_nil_of_enough positive enough
  rcases rebalance_selects current hnonempty enough with ⟨hpartitions, hselects⟩
  refine ⟨hpartitions, fun p present hosts hpresent hhosts => ?_⟩
  rcases hselects p hosts hhosts with ⟨present', chosen, hpresent', rfl, hselection, hlength⟩
  rw [hpresent] at hpresent'
  cases hpresent'
  have hold : ∀ (a b : MemberId) (x y x' y' : Priority), present[a]? = some x →
      present[b]? = some y → (rank present chosen)[a]? = some x' →
      (rank present chosen)[b]? = some y' → (y' ≤ x' ↔ Outranks (a, x) (b, y)) :=
    fun a b x y x' y' hx hy ha hb => rank_le_iff hselection.nodup ha hb hx hy
  have hnew : ∀ (a b : MemberId) (x' y' : Priority), a ∈ present → b ∉ present →
      (rank present chosen)[a]? = some x' → (rank present chosen)[b]? = some y' → y' < x' :=
    fun a b x' y' hin hout ha hb => rank_lt_of_new hselection.nodup ha hb
      (Std.ExtTreeMap.mem_iff_isSome_getElem?.1 hin) (Std.ExtTreeMap.getElem?_eq_none hout)
  refine ⟨hlength ▸ numbered_rank hselection.nodup, fun m hm => ?_, hold, hnew,
    fun leader hleader hstays => ?_⟩
  · exact hselection.subset m (isSome_rank.1 (Std.ExtTreeMap.mem_iff_isSome_getElem?.1 hm))
  · rcases leader?_eq_some_iff.1 hleader with ⟨x, hx, hbest⟩
    rcases SortedMap.mem_iff_exists.1 hstays with ⟨x', hx'⟩
    refine leader?_eq_some_iff.2 ⟨x', hx', fun other y' hy' => ?_⟩
    by_cases hsame : other = leader
    · subst hsame
      rw [hx'] at hy'
      exact Option.some.inj hy' ▸ .refl _
    · refine Or.inl ?_
      cases hother : present[other]? with
      | none =>
          refine hnew leader other x' y' ?_ ?_ hx' hy'
          · exact SortedMap.mem_iff_exists.2 ⟨_, hx⟩
          · simp [Std.ExtTreeMap.mem_iff_isSome_getElem?, hother]
      | some y =>
          have hle := (hold leader other x y x' y' hx hother hx' hy').2 (hbest other y hother)
          have hdiffer : y' ≠ x' := by
            rintro rfl
            exact hsame ((numbered_rank hselection.nodup).eq_of_priority hy' hx')
          exact lt_of_le_of_ne hle hdiffer

/-- One partition has a host too many, one that is no member and one of a high priority that has to
go, another partition has none, and a member is listed twice. -/
theorem rebalance_keeps_ranks_irregular :
    let present : Priorities := .ofList [("a", 1), ("b", 3), ("c", 2), ("x", 3)]
    let current : Placement := .ofList [(1, present), (2, ∅), (3, .ofList [("b", 5)])]
    let members := ["a", "c", "b", "a"]
    1 ≤ 2 ∧ 2 ≤ members.dedup.length ∧
      ∃ hosts, (current.rebalance members 2)[1]? = some hosts ∧ present.leader? = some "b" ∧
        hosts.Numbered 2 ∧ (∀ m ∈ hosts, m ∈ members) ∧ hosts.leader? = some "b" := by
  intro present current members
  have enough : 2 ≤ members.dedup.length := by decide
  have hkeeps := rebalance_keeps_ranks current members 2 (by decide) enough
  have hpresent : current[1]? = some present := by decide +kernel
  have hhosts : ((current.rebalance members 2)[1]?).isSome := by decide +kernel
  have hleader : present.leader? = some "b" := by decide +kernel
  rcases Option.isSome_iff_exists.1 hhosts with ⟨hosts, hhosts⟩
  rcases hkeeps.2 1 present hosts hpresent hhosts with ⟨hnumbered, hmembers, -, -, hstays⟩
  have hhost : ((current.rebalance members 2)[1]?.any (·.contains "b")) = true := by
    decide +kernel
  rw [hhosts] at hhost
  refine ⟨by decide, enough, hosts, hhosts, hleader, hnumbered, hmembers, hstays "b" hleader ?_⟩
  exact Std.ExtTreeMap.contains_iff_mem.1 (by simpa using hhost)

end Placement

end ReplicaCluster
