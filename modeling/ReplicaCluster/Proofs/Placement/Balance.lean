import ReplicaCluster.Proofs.Placement.Selection

/-!
# Filling a partition keeps loads level

The hosts that a partition is handed to, beside those that it has already, are members of the least
load, and hosts of before go first among members of one load (`Load.Hands`).

Where nobody is a host already, none that is passed over had fewer replicas than one that is chosen
(`Load.Fills`).  So if the loads of any two members differed by one at most, they still do
(`Load.Fills.level`).
-/

namespace ReplicaCluster

namespace Load

variable {load base : Load} {present : Priorities} {members chosen kept handed : List MemberId}
  {m other : MemberId}

/-! ## Counts -/

/-- The number of replicas that a member has, 0 if the load does not list it. -/
def count (load : Load) (m : MemberId) : Nat := load.getD m 0

theorem count_of_getElem? {n : Nat} (h : load[m]? = some n) : load.count m = n := by
  simp [count, Std.ExtTreeMap.getD_eq_getD_getElem?, h]

theorem count_idle (members : List MemberId) (m : MemberId) : (idle members).count m = 0 := by
  cases hm : (idle members)[m]? with
  | none => simp [count, Std.ExtTreeMap.getD_eq_getD_getElem?, hm]
  | some n =>
      rcases List.mem_map.1 (SortedMap.mem_of_getElem?_ofList hm) with ⟨other, -, hentry⟩
      rw [count_of_getElem? hm, ← (Prod.mk.inj hentry).2]

theorem count_increment (listed : m ∈ load) :
    (load.increment m).count other = load.count other + if m = other then 1 else 0 := by
  rcases SortedMap.mem_iff_exists.1 listed with ⟨n, hn⟩
  simp only [count, increment, Std.ExtTreeMap.getD_eq_getD_getElem?, Std.ExtTreeMap.getElem?_modify]
  by_cases hother : m = other
  · subst hother
    simp [hn]
  · simp [hother]

/-! ## The next host -/

/-- What the choice of the next host goes by: the load first, then whether the member was a host. -/
def weight (load : Load) (present : Priorities) (m : MemberId) : Nat :=
  2 * load.count m + if present.contains m then 0 else 1

theorem weight_le_of_nextHost? (h : load.nextHost? present chosen = some m) (listed : other ∈ load)
    (free : other ∉ chosen) : load.weight present m ≤ load.weight present other := by
  rcases Option.map_eq_some_iff.1 h with ⟨⟨_, n⟩, hlightest, rfl⟩
  rcases SortedMap.mem_iff_exists.1 listed with ⟨k, hk⟩
  have hmem := (List.mem_filter.1 (mem_of_lightest? hlightest)).1
  have hfree : (other, k) ∈ load.toList.filter fun e => !chosen.contains e.1 :=
    List.mem_filter.2 ⟨Std.ExtTreeMap.mem_toList_iff_getElem?_eq_some.2 hk, by simpa using free⟩
  rw [weight, weight, count_of_getElem? hk,
    count_of_getElem? (Std.ExtTreeMap.mem_toList_iff_getElem?_eq_some.1 hmem)]
  exact weight_le_of_lightest? hlightest hfree

/-- A host of before may go first among members of one load, but not before a lighter one. -/
theorem count_le_of_weight_le (h : load.weight present m ≤ load.weight present other) :
    load.count m ≤ load.count other := by
  simp only [weight] at h
  split at h
  · split at h <;> omega
  · split at h <;> omega

theorem count_lt_of_weight_le (h : load.weight present m ≤ load.weight present other)
    (new : present.contains m = false) (old : present.contains other = true) :
    load.count m < load.count other := by
  simp only [weight, new, old, Bool.false_eq_true, if_true, if_false] at h
  omega

/-! ## Handing a partition over -/

/-- A partition that is on the kept hosts already is handed to members of the least weight, and they
have one replica more than before. -/
structure Hands (members : List MemberId) (present : Priorities) (kept : List MemberId)
    (base load : Load) (handed : List MemberId) : Prop where
  lists : load.Lists members
  selection : Selection members (kept ++ handed)
  count : ∀ m, load.count m = base.count m + if m ∈ handed then 1 else 0
  lightest : ∀ m ∈ handed, ∀ other ∈ members, other ∉ kept ++ handed →
    base.weight present m ≤ base.weight present other

theorem hands_nil (present : Priorities) (lists : base.Lists members)
    (selection : Selection members kept) : Hands members present kept base base [] :=
  ⟨lists, by simpa using selection, by simp, by simp⟩

theorem Hands.weight_eq (h : Hands members present kept base load handed) (free : m ∉ handed) :
    load.weight present m = base.weight present m := by
  simp [weight, h.count, free]

theorem Hands.concat (h : Hands members present kept base load handed)
    (next : load.nextHost? present (kept ++ handed) = some m) :
    Hands members present kept base (load.increment m) (handed ++ [m]) := by
  rcases mem_of_nextHost? next with ⟨hlisted, hfree⟩
  have hnew : m ∉ handed := fun hm => hfree (List.mem_append_right kept hm)
  refine ⟨h.lists.increment m, ?_, fun other => ?_, fun a ha b hb hpassed => ?_⟩
  · rw [← List.append_assoc]
    exact h.selection.concat ((h.lists m).1 hlisted) hfree
  · rw [count_increment hlisted, h.count]
    by_cases hother : m = other
    · subst hother
      simp [hnew]
    · simp [hother, Ne.symm hother]
  · rw [← List.append_assoc, List.mem_append, not_or] at hpassed
    rcases List.mem_append.1 ha with hhanded | hlast
    · exact h.lightest a hhanded b hb hpassed.1
    · -- Neither of the two was handed the partition so far, so both have the load of the beginning.
      have hb' : b ∉ handed := fun hmem => hpassed.1 (List.mem_append_right kept hmem)
      have hweight := weight_le_of_nextHost? next ((h.lists b).2 hb) hpassed.1
      rw [h.weight_eq hnew, h.weight_eq hb'] at hweight
      rw [List.mem_singleton.1 hlast]
      exact hweight

/-- Places are filled as long as there are members left. -/
theorem Hands.exists_fill :
    ∀ (places : Nat) {load : Load} {handed : List MemberId},
      Hands members present kept base load handed →
      ∃ filled hosts, fill present places load (kept ++ handed) = (filled, kept ++ hosts) ∧
        Hands members present kept base filled hosts ∧
        (kept ++ hosts).length = min ((kept ++ handed).length + places) members.dedup.length := by
  intro places
  induction places with
  | zero =>
      intro load handed h
      exact ⟨load, handed, rfl, h, (min_eq_left h.selection.dedup.length_le).symm⟩
  | succ places ih =>
      intro load handed h
      cases hnext : load.nextHost? present (kept ++ handed) with
      | none =>
          have hfew := h.selection.dedup.length_le
          -- Nobody is found just if all members are chosen already.
          have hall : members.dedup.length ≤ (kept ++ handed).length := by
            by_contra hfewer
            rcases exists_mem_of_length_lt members.nodup_dedup (Nat.lt_of_not_le hfewer) with
              ⟨m, hm, hfree⟩
            have hsome : ∃ next, load.nextHost? present (kept ++ handed) = some next :=
              exists_nextHost? ((h.lists m).2 (List.mem_dedup.1 hm)) hfree
            simp [hnext] at hsome
          exact ⟨load, handed, by simp [fill, hnext], h, by omega⟩
      | some m =>
          rcases ih (h.concat hnext) with ⟨filled, hosts, hfill, hhands, hlength⟩
          refine ⟨filled, hosts, ?_, hhands, hlength.trans ?_⟩
          · simp only [fill, hnext]
            rw [List.append_assoc]
            exact hfill
          · simp only [List.length_append, List.length_singleton]
            omega

/-! ## Filling a partition without hosts -/

/-- The chosen hosts are members of the least load, and they have one replica more than before. -/
structure Fills (members : List MemberId) (base load : Load) (chosen : List MemberId) : Prop where
  lists : load.Lists members
  selection : Selection members chosen
  count : ∀ m, load.count m = base.count m + if m ∈ chosen then 1 else 0
  least : ∀ m ∈ chosen, ∀ other ∈ members, other ∉ chosen → base.count m ≤ base.count other

theorem Hands.fills (h : Hands members present [] base load chosen) :
    Fills members base load chosen :=
  ⟨h.lists, h.selection, h.count, fun m hm other hother hpassed =>
    count_le_of_weight_le (h.lightest m hm other hother hpassed)⟩

theorem fills_fill (distinct : members.Nodup) (present : Priorities) (places : Nat)
    (lists : base.Lists members) :
    let filled := fill present places base []
    Fills members base filled.1 filled.2 ∧ filled.2.length = min places members.length := by
  have hstart : Hands members present [] base base [] :=
    hands_nil present lists ⟨List.nodup_nil, by simp⟩
  rcases hstart.exists_fill places with ⟨filled, hosts, hfill, hhands, hlength⟩
  rw [List.nil_append, List.nil_append] at hfill
  rw [distinct.dedup] at hlength
  rw [hfill]
  exact ⟨hhands.fills, by simpa using hlength⟩

/-! ## Level loads -/

/-- No member has two replicas more than another one. -/
def Level (members : List MemberId) (load : Load) : Prop :=
  ∀ a ∈ members, ∀ b ∈ members, load.count a ≤ load.count b + 1

theorem level_idle (members : List MemberId) : Level members (idle members) := by
  intro a _ b _
  simp [count_idle]

theorem Fills.level (h : Fills members base load chosen) (level : Level members base) :
    Level members load := by
  intro a ha b hb
  have hbase := level a ha b hb
  rw [h.count a, h.count b]
  by_cases hchosen : a ∈ chosen
  · by_cases hpassed : b ∈ chosen
    · simpa [hchosen, hpassed] using hbase
    · have hleast := h.least a hchosen b hb hpassed
      simpa [hchosen, hpassed] using hleast
  · simp only [hchosen, if_false]
    omega

end Load

end ReplicaCluster
