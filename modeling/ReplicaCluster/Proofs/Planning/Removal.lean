import ReplicaCluster.Planning.Evacuation
import ReplicaCluster.Proofs.Placement.Rebalance
import ReplicaCluster.Proofs.Planning.Evacuation
import ReplicaCluster.Proofs.Planning.Priorities
import ReplicaCluster.Proofs.Planning.Resettlement

/-!
# Removing members

The planner works on a placement, which is where the partitions will be once the plan so far is
performed (`Draft.Follows`).  So what it comes up with is an evacuation, at the end of which all that
are to go are gone (`evacuation_of_removeMembers`).

It fails only where a partition needs a replacement and all members that stay host it already.  There
are always enough of them if there are as many as the replication factor asks for, and never without
that if there is anything to move (`removal_is_safe`).
-/

namespace ReplicaCluster

/-! ## Loads and placements -/

theorem Load.lists_foldl_increment {members : List MemberId} (hosts : List MemberId) :
    ∀ {load : Load}, load.Lists members → (hosts.foldl Load.increment load).Lists members := by
  induction hosts with
  | nil => exact fun h => h
  | cons host rest ih => exact fun h => ih (h.increment host)

/-- Whatever the placement, its load lists the members that are asked for. -/
theorem Load.lists_ofPlacement (members : List MemberId) (placement : Placement) :
    (Load.ofPlacement members placement).Lists members := by
  -- Counting adds no member to a load that lists them all, however much was counted before.
  have hfold : ∀ (partitions : List Priorities) {load : Load}, load.Lists members →
      (partitions.foldl (fun load hosts => hosts.keys.foldl Load.increment load) load).Lists
        members := by
    intro partitions
    induction partitions with
    | nil => exact fun h => h
    | cons hosts rest ih => exact fun h => ih (Load.lists_foldl_increment hosts.keys h)
  exact hfold placement.values (Load.lists_idle members)

theorem Placement.priority?_insert {placement : Placement} {hosts : Priorities}
    {p q : PartitionId} {m : MemberId} :
    Placement.priority? (placement.insert p hosts) q m =
      if p = q then hosts[m]? else placement.priority? q m := by
  unfold Placement.priority?
  rw [Std.ExtTreeMap.getElem?_insert]
  by_cases hq : p = q
  · simp [hq]
  · simp [hq]

namespace Planner

open ReplicaCluster.Topology

variable {leavers gone survivors : List MemberId} {replicationFactor : Nat} {t : Topology}
  {ops : List Operation} {d d' : Draft} {m member : MemberId} {p : PartitionId}

/-! ## Moving one partition -/

/-- All that moving a partition off a member can do to a draft. -/
inductive Evacuates (survivors : List MemberId) (replicationFactor : Nat) (member : MemberId)
    (d : Draft) (p : PartitionId) : Draft → Prop
  /-- The member does not host the partition. -/
  | absent (unhosted : d.placement.priority? p member = none) :
      Evacuates survivors replicationFactor member d p d
  | spared {hosts : Priorities} (present : d.placement[p]? = some hosts)
      (hosted : (hosts[member]?).isSome) (ample : replicationFactor ≤ hosts.size - 1) :
      Evacuates survivors replicationFactor member d p
        ⟨d.placement.insert p (hosts.erase member),
          d.operations ++ [⟨member, .leavePartition p⟩]⟩
  | replaced {hosts : Priorities} {priority : Priority} {other : MemberId}
      (present : d.placement[p]? = some hosts) (hosted : hosts[member]? = some priority)
      (scarce : hosts.size - 1 < replicationFactor) (survives : other ∈ survivors)
      (free : hosts[other]? = none) :
      Evacuates survivors replicationFactor member d p
        ⟨d.placement.insert p ((hosts.insert other priority).erase member),
          d.operations ++ [⟨other, .joinPartition p priority⟩, ⟨member, .leavePartition p⟩]⟩

theorem evacuates_of_ok (h : evacuatePartition survivors replicationFactor member d p = .ok d') :
    Evacuates survivors replicationFactor member d p d' := by
  unfold evacuatePartition at h
  cases hhosts : d.placement[p]? with
  | none =>
      have hsame : d = d' := by simpa [hhosts] using h
      exact hsame ▸ .absent (by simp [Placement.priority?, hhosts])
  | some hosts =>
      cases hmember : hosts[member]? with
      | none =>
          have hsame : d = d' := by simpa [hhosts, hmember] using h
          exact hsame ▸ .absent (by simp [Placement.priority?, hhosts, hmember])
      | some priority =>
          simp only [hhosts, hmember] at h
          split at h
          · next hscarce =>
              split at h
              · simp at h
              · next other hother =>
                  -- The load lists the survivors, and those who are hosts are passed over.
                  rcases Load.mem_of_nextHost? hother with ⟨hlisted, hnew⟩
                  have hfree : hosts[other]? = none :=
                    Std.ExtTreeMap.getElem?_eq_none fun hmem =>
                      hnew (Std.ExtTreeMap.mem_keys.2 hmem)
                  cases h
                  exact .replaced hhosts hmember hscarce
                    ((Load.lists_ofPlacement survivors d.placement other).1 hlisted) hfree
          · next hample =>
              cases h
              exact .spared hhosts (by simp [hmember]) (Nat.le_of_not_lt hample)

/-- The member does not host the partition any more, and its other partitions are as before. -/
theorem Evacuates.priority?_eq (h : Evacuates survivors replicationFactor member d p d')
    (q : PartitionId) :
    d'.placement.priority? q member =
      if p = q then none else d.placement.priority? q member := by
  cases h with
  | absent unhosted =>
      split
      · next hq => rw [← hq, unhosted]
      · rfl
  | spared present hosted ample =>
      rw [Placement.priority?_insert]
      split
      · simp
      · rfl
  | replaced present hosted scarce survives free =>
      rw [Placement.priority?_insert]
      split
      · simp
      · rfl

theorem priority?_of_evacuated (partitions : List PartitionId) :
    ∀ {d d' : Draft},
      partitions.foldlM (evacuatePartition survivors replicationFactor member) d = .ok d' →
      ∀ q, d'.placement.priority? q member =
        if q ∈ partitions then none else d.placement.priority? q member := by
  induction partitions with
  | nil =>
      intro d d' hd' q
      cases hd'
      simp
  | cons p rest ih =>
      intro d d' hd' q
      rw [List.foldlM_cons, bind_eq_ok_iff] at hd'
      rcases hd' with ⟨moved, hmoved, hrest⟩
      rw [ih hrest, (evacuates_of_ok hmoved).priority?_eq]
      -- The member may have left the partition in the first step or in one of the others.
      by_cases hq : q ∈ rest
      · simp [hq]
      · by_cases hp : p = q
        · simp [hp]
        · simp [hq, hp, Ne.symm hp]

/-! ## Drafts of the planner -/

/-- The placement of a draft is where the partitions are once its operations are performed.  Those
who are gone by then were to leave, and all others have their status. -/
structure Draft.Follows (t : Topology) (leavers : List MemberId) (replicationFactor : Nat)
    (gone : List MemberId) (d : Draft) : Prop where
  evacuation : Evacuation leavers replicationFactor t d.operations
  placement : ∀ id p, d.placement.priority? p id =
    ((t.performAll d.operations).replica? id p).map (·.priority)
  status : ∀ id, (t.performAll d.operations).status? id =
    if id ∈ gone then none else t.status? id
  leave : ∀ id ∈ gone, id ∈ leavers

/-- Those who may take over replicas: active members that are not to leave. -/
structure Stayers (t : Topology) (leavers survivors : List MemberId) : Prop where
  distinct : survivors.Nodup
  mem_iff : ∀ id, id ∈ survivors ↔ id ∉ leavers ∧ t.status? id = some .active

namespace Draft.Follows

theorem start (t : Topology) : Draft.Follows t leavers replicationFactor [] ⟨t.placement, []⟩ := by
  refine ⟨.nil, ?_, by simp, by simp⟩
  intro id p
  exact priority?_placement

/-- The hosts that the draft has for a partition are those at the end of its operations. -/
theorem priorities_eq (h : d.Follows t leavers replicationFactor gone) {hosts : Priorities}
    (present : d.placement[p]? = some hosts) :
    hosts = (t.performAll d.operations).priorities p := by
  refine Std.ExtTreeMap.ext_getElem? fun id => ?_
  rw [getElem?_priorities, ← h.placement, Placement.priority?_of_getElem? present]

/-- A draft is carried on by an evacuation of what it has come to, after which the placement is
right again. -/
theorem extend (h : d.Follows t leavers replicationFactor gone) {placement : Placement}
    (more : Evacuation leavers replicationFactor (t.performAll d.operations) ops)
    (placed : ∀ id p, placement.priority? p id =
      (((t.performAll d.operations).performAll ops).replica? id p).map (·.priority))
    (status : ∀ id, ((t.performAll d.operations).performAll ops).status? id =
      (t.performAll d.operations).status? id) :
    Draft.Follows t leavers replicationFactor gone ⟨placement, d.operations ++ ops⟩ := by
  refine ⟨h.evacuation.append more, ?_, ?_, h.leave⟩
  · intro id p
    rw [performAll_append]
    exact placed id p
  · intro id
    rw [performAll_append, status, h.status]

theorem evacuates (h : d.Follows t leavers replicationFactor gone)
    (stayers : Stayers t leavers survivors) (leaver : member ∈ leavers)
    (moved : Evacuates survivors replicationFactor member d p d') :
    d'.Follows t leavers replicationFactor gone := by
  let now := t.performAll d.operations
  -- So whatever the planner reads off the draft is true of the topology at that stage.
  have hhosts : ∀ {hosts : Priorities}, d.placement[p]? = some hosts →
      hosts.size = now.replicaCount p ∧
        ∀ id : MemberId, hosts[id]? = (now.replica? id p).map (·.priority) := by
    intro hosts present
    refine ⟨?_, ?_⟩
    · rw [h.priorities_eq present, size_priorities]
    · intro id
      rw [← Placement.priority?_of_getElem? present, h.placement]
  cases moved with
  | absent unhosted => exact h
  | @spared hosts present hosted ample =>
      rcases hhosts present with ⟨hsize, hentry⟩
      have hhosted : (now.replica? member p).isSome := by
        simpa [hentry] using hosted
      refine h.extend (.departure leaver hhosted (hsize ▸ ample) .nil) ?_ ?_
      · intro id q
        simp only [Placement.priority?_insert, Std.ExtTreeMap.getElem?_erase, performAll_cons,
          performAll_nil, replica?_perform_leavePartition]
        by_cases hq : p = q
        · subst hq
          by_cases hid : member = id
          · simp [hid]
          · simpa [hid] using hentry id
        · simpa [hq] using h.placement id q
      · intro id
        exact status?_perform_leavePartition
  | @replaced hosts priority other present hosted scarce survives free =>
      rcases hhosts present with ⟨hsize, hentry⟩
      rcases Option.map_eq_some_iff.1 ((hentry member).symm.trans hosted) with ⟨r, hr, rfl⟩
      -- The replacement is none of those who are to leave, so it is there still.
      rcases (stayers.mem_iff other).1 survives with ⟨hstays, hactive⟩
      have hpresent : now.status? other = some .active := by
        rw [h.status, if_neg fun hgone => hstays (h.leave other hgone), hactive]
      have hknown : (now.status? other).isSome := by simp [hpresent]
      have hfree : now.replica? other p = none := by
        simpa using (hentry other).symm.trans free
      refine h.extend (.handover leaver hr (hsize ▸ scarce) hstays hpresent hfree .nil) ?_ ?_
      · intro id q
        rw [replica?_handover hknown, Placement.priority?_insert]
        by_cases hq : p = q
        · subst hq
          by_cases hid : member = id
          · simp [hid]
          · by_cases hreplacement : other = id
            · simp [hid, hreplacement, Replica.active]
            · simpa [hid, hreplacement, Std.ExtTreeMap.getElem?_erase,
                Std.ExtTreeMap.getElem?_insert] using hentry id
        · simpa [hq] using h.placement id q
      · intro id
        exact status?_handover

/-- A member that is emptied and let go is one more of those who are gone. -/
theorem evacuateMember (h : d.Follows t leavers replicationFactor gone)
    (stayers : Stayers t leavers survivors) (leaver : member ∈ leavers)
    (known : (t.status? member).isSome) (present : member ∉ gone)
    (hd' : Planner.evacuateMember survivors replicationFactor d member = .ok d') :
    d'.Follows t leavers replicationFactor (gone ++ [member]) := by
  unfold Planner.evacuateMember at hd'
  rw [bind_eq_ok_iff] at hd'
  rcases hd' with ⟨emptied, hemptied, hlast⟩
  have hfollows : emptied.Follows t leavers replicationFactor gone :=
    invariant_foldlM _ (fun _ _ _ _ hd hstep => hd.evacuates stayers leaver (evacuates_of_ok hstep)) h
      hemptied
  cases hlast
  -- All that the member hosted was moved off it, and it got nothing in exchange.
  have hempty : ∀ q, (t.performAll emptied.operations).replica? member q = none := by
    intro q
    have hmoved : emptied.placement.priority? q member = none := by
      rw [priority?_of_evacuated _ hemptied]
      split
      · rfl
      · next hq => simpa [Placement.mem_hostedBy_iff] using hq
    simpa [hfollows.placement] using hmoved
  have hknown : ((t.performAll emptied.operations).status? member).isSome := by
    rw [hfollows.status, if_neg present]
    exact known
  refine ⟨hfollows.evacuation.append (.exit leaver hknown hempty .nil), ?_, ?_, ?_⟩
  · intro id q
    simpa only [performAll_concat, replica?_perform_leaveCluster_of_empty hempty] using
      hfollows.placement id q
  · intro id
    simp only [performAll_concat, status?_perform_leaveCluster, hfollows.status]
    by_cases hid : member = id
    · simp [hid]
    · simp [hid, Ne.symm hid]
  · exact List.forall_mem_append.2 ⟨h.leave, by simpa using leaver⟩

theorem evacuateMembers (stayers : Stayers t leavers survivors) (removed : List MemberId) :
    ∀ {gone : List MemberId} {d d' : Draft}, d.Follows t leavers replicationFactor gone →
      removed.Nodup → (∀ id ∈ removed, id ∈ leavers ∧ (t.status? id).isSome ∧ id ∉ gone) →
      removed.foldlM (Planner.evacuateMember survivors replicationFactor) d = .ok d' →
      d'.Follows t leavers replicationFactor (gone ++ removed) := by
  -- By induction on those who are to go, whoever has gone before.
  induction removed with
  | nil =>
      intro gone d d' h distinct known hd'
      cases hd'
      simpa using h
  | cons member rest ih =>
      intro gone d d' h distinct known hd'
      rw [List.foldlM_cons, bind_eq_ok_iff] at hd'
      rcases hd' with ⟨moved, hmoved, hrest⟩
      rcases List.forall_mem_cons.1 known with ⟨⟨hleaver, hknown, hpresent⟩, hothers⟩
      rcases List.nodup_cons.1 distinct with ⟨hnew, hdistinct⟩
      have hfollows := h.evacuateMember stayers hleaver hknown hpresent hmoved
      have hstill : ∀ id ∈ rest, id ∈ leavers ∧ (t.status? id).isSome ∧ id ∉ gone ++ [member] := by
        intro id hid
        rcases hothers id hid with ⟨hleave, hsome, habsent⟩
        have hother : id ≠ member := fun heq => hnew (heq ▸ hid)
        exact ⟨hleave, hsome, by simp [habsent, hother]⟩
      simpa using ih hfollows hdistinct hstill hrest

end Draft.Follows

/-! ## The plan for a removal -/

theorem stayers_filter (t : Topology) (leavers : List MemberId) :
    Stayers t leavers
      (t.members.filter fun id m => !leavers.contains id && m.isActive).keys := by
  refine ⟨Std.ExtTreeMap.nodup_keys, ?_⟩
  intro id
  rw [Std.ExtTreeMap.mem_keys, Std.ExtTreeMap.mem_iff_isSome_getElem?,
    Std.ExtTreeMap.getElem?_filter']
  have hmember : t.members[id]? = t.member? id := rfl
  rw [hmember]
  cases hm : t.member? id with
  | none => simp [status?, hm]
  | some x => simp [status?, hm, Option.filter, Member.isActive]

/-- The plan for a removal is an evacuation, at the end of which all that were to go are gone. -/
theorem evacuation_of_removeMembers (h : removeMembers leavers replicationFactor t = .ok ops) :
    Evacuation leavers replicationFactor t ops ∧
      ∀ id, (t.performAll ops).status? id = if id ∈ leavers then none else t.status? id := by
  unfold removeMembers at h
  rw [bind_eq_ok_iff] at h
  rcases h with ⟨draft, hdraft, hlast⟩
  cases hlast
  let removed := (sortDistinct leavers).filter t.hasMember
  have hremoved : ∀ id, id ∈ removed ↔ id ∈ leavers ∧ (t.status? id).isSome := by
    intro id
    simp [removed, mem_sortDistinct, hasMember_eq_isSome]
  have hfollows : draft.Follows t leavers replicationFactor ([] ++ removed) := by
    refine Draft.Follows.evacuateMembers (stayers_filter t leavers) removed (.start t)
      ((nodup_sortDistinct leavers).filter _) ?_ hdraft
    intro id hid
    rcases (hremoved id).1 hid with ⟨hleaver, hknown⟩
    exact ⟨hleaver, hknown, by simp⟩
  refine ⟨hfollows.evacuation, ?_⟩
  intro id
  rw [hfollows.status]
  -- Those who were to go and are not removed have never been members.
  by_cases hleaver : id ∈ leavers
  · cases hstatus : t.status? id with
    | none => simp
    | some s =>
        have hmem : id ∈ removed := (hremoved id).2 ⟨hleaver, by simp [hstatus]⟩
        simp [hmem, hleaver]
  · have hmem : id ∉ removed := fun hmem => hleaver ((hremoved id).1 hmem).1
    simp [hmem, hleaver]

/-! ## When there is a plan -/

theorem bind_eq_error_iff {ε α β : Type} {x : Except ε α} {f : α → Except ε β} {e : ε} :
    (x >>= f) = .error e ↔ x = .error e ∨ ∃ a, x = .ok a ∧ f a = .error e := by
  cases x <;> simp [bind, Except.bind]

section Folds

variable {σ α ε : Type} {f : σ → α → Except ε σ}

theorem exists_foldlM (xs : List α) (step : ∀ s, ∀ a ∈ xs, ∃ s', f s a = .ok s') :
    ∀ s, ∃ s', xs.foldlM f s = .ok s' := by
  induction xs with
  | nil => exact fun s => ⟨s, rfl⟩
  | cons a rest ih =>
      intro s
      rcases step s a List.mem_cons_self with ⟨s₁, hfirst⟩
      rcases ih (fun s b hb => step s b (List.mem_cons_of_mem a hb)) s₁ with ⟨s', hrest⟩
      exact ⟨s', by rw [List.foldlM_cons, hfirst]; exact hrest⟩

theorem error_of_foldlM {reported : ε → Prop} (step : ∀ s a e, f s a = .error e → reported e)
    (xs : List α) : ∀ {s : σ} {e : ε}, xs.foldlM f s = .error e → reported e := by
  induction xs with
  | nil =>
      intro s e h
      cases h
  | cons a rest ih =>
      intro s e h
      rw [List.foldlM_cons] at h
      rcases bind_eq_error_iff.1 h with hfirst | ⟨s₁, -, hrest⟩
      · exact step s a e hfirst
      · exact ih hrest

end Folds

/-- As many active members as the floor asks for are not among those who are to leave. -/
def EnoughStay (t : Topology) (leavers : List MemberId) (replicationFactor : Nat) : Prop :=
  ∃ stay : Finset MemberId, replicationFactor ≤ stay.card ∧
    ∀ id ∈ stay, id ∉ leavers ∧ t.status? id = some .active

theorem Stayers.le_length (stayers : Stayers t leavers survivors)
    (enough : EnoughStay t leavers replicationFactor) : replicationFactor ≤ survivors.length := by
  rcases enough with ⟨stay, hcard, hstay⟩
  have hsubset : stay ⊆ survivors.toFinset := by
    intro id hid
    exact List.mem_toFinset.2 ((stayers.mem_iff id).2 (hstay id hid))
  calc replicationFactor
    _ ≤ stay.card := hcard
    _ ≤ survivors.toFinset.card := Finset.card_le_card hsubset
    _ ≤ survivors.length := List.toFinset_card_le survivors

/-- A replacement is needed only where fewer members than survive host the partition, apart from the
one that leaves it. -/
theorem exists_evacuatePartition (distinct : survivors.Nodup)
    (enough : replicationFactor ≤ survivors.length) (leaving : member ∉ survivors) (d : Draft)
    (p : PartitionId) :
    ∃ d', evacuatePartition survivors replicationFactor member d p = .ok d' := by
  unfold evacuatePartition
  cases hhosts : d.placement[p]? with
  | none => exact ⟨d, rfl⟩
  | some hosts =>
      cases hmember : hosts[member]? with
      | none => exact ⟨d, by simp [hmember]⟩
      | some priority =>
          simp only [hmember]
          split
          · next hscarce =>
              have hlisted : member ∈ hosts.keys := by
                rw [Std.ExtTreeMap.mem_keys, Std.ExtTreeMap.mem_iff_isSome_getElem?, hmember]
                rfl
              -- Apart from the member there are fewer hosts than survivors.
              have hfewer : (hosts.keys.erase member).length < survivors.length := by
                rw [List.length_erase_of_mem hlisted, Std.ExtTreeMap.length_keys]
                omega
              rcases exists_mem_of_length_lt distinct hfewer with ⟨other, hother, hnew⟩
              have hfree : other ∉ hosts.keys := by
                have hdiffer : other ≠ member := fun heq => leaving (heq ▸ hother)
                simpa [List.mem_erase_of_ne hdiffer] using hnew
              have hlightest : ∃ next, (Load.ofPlacement survivors d.placement).nextHost? ∅
                  hosts.keys = some next :=
                Load.exists_nextHost? ((Load.lists_ofPlacement survivors d.placement other).2 hother)
                  hfree
              rcases hlightest with ⟨next, hnext⟩
              exact ⟨_, by simp only [hnext]; rfl⟩
          · exact ⟨_, rfl⟩

theorem exists_plan (enough : EnoughStay t leavers replicationFactor) :
    ∃ ops, removeMembers leavers replicationFactor t = .ok ops := by
  have stayers := stayers_filter t leavers
  have henough := stayers.le_length enough
  have hmember : ∀ (d : Draft), ∀ member ∈ (sortDistinct leavers).filter t.hasMember,
      ∃ d', evacuateMember (t.members.filter fun id m => !leavers.contains id && m.isActive).keys
        replicationFactor d member = .ok d' := by
    intro d member hmember
    have hleaver : member ∈ leavers := mem_sortDistinct.1 (List.mem_filter.1 hmember).1
    have hleaving : member ∉
        (t.members.filter fun id m => !leavers.contains id && m.isActive).keys :=
      fun hstays => ((stayers.mem_iff member).1 hstays).1 hleaver
    rcases exists_foldlM (d.placement.hostedBy member)
      (fun d p _ => exists_evacuatePartition stayers.distinct henough hleaving d p) d with
      ⟨emptied, hemptied⟩
    exact ⟨_, by rw [evacuateMember, hemptied]; rfl⟩
  rcases exists_foldlM _ hmember ⟨t.placement, []⟩ with ⟨draft, hdraft⟩
  exact ⟨_, by rw [removeMembers, hdraft]; rfl⟩

/-- The only thing that can go wrong is that there is no replacement. -/
theorem invalidRequest_of_evacuatePartition {e : Failure}
    (h : evacuatePartition survivors replicationFactor member d p = .error e) :
    e.kind = .invalidRequest := by
  unfold evacuatePartition at h
  split at h
  · cases h
  · split at h
    · cases h
    · dsimp only at h
      split at h
      · split at h
        · cases h
          rfl
        · cases h
      · cases h

theorem invalidRequest_of_evacuateMember {e : Failure}
    (h : evacuateMember survivors replicationFactor d member = .error e) :
    e.kind = .invalidRequest := by
  unfold evacuateMember at h
  rcases bind_eq_error_iff.1 h with hfold | ⟨emptied, -, hlast⟩
  · exact error_of_foldlM (fun _ _ _ hstep => invalidRequest_of_evacuatePartition hstep) _ hfold
  · cases hlast

theorem invalidRequest_of_removeMembers {e : Failure}
    (h : removeMembers leavers replicationFactor t = .error e) : e.kind = .invalidRequest := by
  unfold removeMembers at h
  rcases bind_eq_error_iff.1 h with hfold | ⟨draft, -, hlast⟩
  · exact error_of_foldlM (fun _ _ _ hstep => invalidRequest_of_evacuateMember hstep) _ hfold
  · cases hlast

/-- A partition with enough replicas that a member leaves is hosted by enough members in the end,
all of whom stay. -/
theorem enough_of_plan (active : ∀ id s, t.status? id = some s → s = .active)
    (enough : replicationFactor ≤ t.replicaCount p)
    (h : removeMembers leavers replicationFactor t = .ok ops) :
    EnoughStay t leavers replicationFactor := by
  rcases evacuation_of_removeMembers h with ⟨evacuation, hstatus⟩
  have hend : Orderly t leavers replicationFactor (t.performAll ops) [] :=
    Throughout.at_stage ops (by simpa using evacuation.orderly (.refl t))
  -- The hosts of the partition at the end are as many as it takes, and have all stayed.
  refine ⟨(t.performAll ops).hosts p, ?_, ?_⟩
  · have hfloor := hend.intact.floor p
    rwa [min_eq_right enough, replicaCount_eq_card_hosts] at hfloor
  · intro id hid
    have hknown := hasMember_of_hosts (mem_hosts_iff.1 hid)
    rw [hasMember_eq_isSome, hstatus] at hknown
    by_cases hleaver : id ∈ leavers
    · simp [hleaver] at hknown
    · rw [if_neg hleaver] at hknown
      rcases Option.isSome_iff_exists.1 hknown with ⟨s, hs⟩
      exact ⟨hleaver, by rw [hs, active id s hs]⟩

/-- The plan by which members are removed, if there is one, performed on any topology:

* at every stage of it each partition has as many replicas as at the start, or as the replication
  factor asks for; members that stay have all their replicas as they were; a member that joins a
  partition is to stay, active and new to the partition; a member that leaves the cluster hosts
  nothing;
* in the end the members are gone and all partitions are hosted still.

There is a plan if as many active members stay as the replication factor asks for.  If all members
are active, all partitions have enough replicas and one of them is hosted by a member that is to
leave, there is none otherwise, and the request is invalid. -/
theorem removal_is_safe (members : List MemberId) {replicationFactor : Nat}
    (positive : 1 ≤ replicationFactor) (t : Topology) :
    (∀ operations, removeMembers members replicationFactor t = .ok operations →
      (∀ done rest, operations = done ++ rest →
        (∀ p, min (t.replicaCount p) replicationFactor ≤ (t.performAll done).replicaCount p) ∧
        (∀ id, id ∉ members → ∀ p r, t.replica? id p = some r →
          (t.performAll done).replica? id p = some r) ∧
        (∀ m p priority later, rest = ⟨m, .joinPartition p priority⟩ :: later →
          m ∉ members ∧ (t.performAll done).status? m = some .active ∧
            (t.performAll done).replica? m p = none) ∧
        ∀ m later, rest = ⟨m, .leaveCluster⟩ :: later →
          ∀ p, (t.performAll done).replica? m p = none) ∧
      (∀ m ∈ members, (t.performAll operations).hasMember m = false) ∧
      ∀ p ∈ t.partitions, p ∈ (t.performAll operations).partitions) ∧
    (EnoughStay t members replicationFactor →
      ∃ operations, removeMembers members replicationFactor t = .ok operations) ∧
    ((∀ id s, t.status? id = some s → s = .active) →
      (∀ p ∈ t.partitions, replicationFactor ≤ t.replicaCount p) →
      (∃ m ∈ members, ∃ p, (t.replica? m p).isSome) →
      ¬ EnoughStay t members replicationFactor →
      ∃ e, removeMembers members replicationFactor t = .error e ∧ e.kind = .invalidRequest) := by
  refine ⟨?_, exists_plan, ?_⟩
  · intro operations hplan
    rcases evacuation_of_removeMembers hplan with ⟨evacuation, hstatus⟩
    have hstages : ∀ done rest, operations = done ++ rest →
        Orderly t members replicationFactor (t.performAll done) rest := by
      rintro done rest rfl
      exact (evacuation.orderly (.refl t)).at_stage done
    refine ⟨?_, ?_, ?_⟩
    · intro done rest hsplit
      have horderly := hstages done rest hsplit
      exact ⟨horderly.intact.floor, horderly.intact.kept, horderly.join, horderly.exit⟩
    · intro m hm
      simp [hasMember_eq_isSome, hstatus, hm]
    · intro p hp
      have hfloor := (hstages operations [] (by simp)).intact.floor p
      rw [mem_partitions_iff_replicaCount_pos] at hp ⊢
      exact (lt_min hp positive).trans_le hfloor
  · rintro active enough ⟨m, -, p, hosted⟩ hfew
    have hp : p ∈ t.partitions := mem_partitions_iff.2 ⟨m, hosted⟩
    cases hplan : removeMembers members replicationFactor t with
    | error e => exact ⟨e, rfl, invalidRequest_of_removeMembers hplan⟩
    | ok operations => exact absurd (enough_of_plan active (enough p hp) hplan) hfew

/-- Two members that serve a partition, and one that could. -/
def trio : Topology :=
  ((Topology.initial.addMember "a" (.active (.insert ∅ 1 (.active 2)))).addMember "b"
    (.active (.insert ∅ 1 (.active 1)))).addMember "c" (.active ∅)

theorem removal_is_safe_trio :
    let join : Operation := ⟨"c", .joinPartition 1 2⟩
    let leave : Operation := ⟨"a", .leavePartition 1⟩
    let exit : Operation := ⟨"a", .leaveCluster⟩
    1 ≤ 2 ∧ removeMembers ["a"] 2 trio = .ok [join, leave, exit] ∧
      "c" ∉ ["a"] ∧ trio.status? "c" = some .active ∧ trio.replica? "c" 1 = none ∧
      2 ≤ (trio.performAll [join, leave]).replicaCount 1 ∧
      (trio.performAll [join, leave]).replica? "b" 1 = some (.active 1) ∧
      (trio.performAll [join, leave, exit]).hasMember "a" = false := by
  intro join leave exit
  have hplan : removeMembers ["a"] 2 trio = .ok [join, leave, exit] := by decide +kernel
  have hserves : trio.replica? "b" 1 = some (.active 1) := by decide +kernel
  have htwo : trio.replicaCount 1 = 2 := by decide +kernel
  have hsafe := (removal_is_safe ["a"] (by decide : 1 ≤ 2) trio).1 _ hplan
  rcases hsafe with ⟨hstages, hgone, -⟩
  have hjoin := (hstages [] [join, leave, exit] rfl).2.2.1 "c" 1 2 [leave, exit] rfl
  have hmoved := hstages [join, leave] [exit] rfl
  refine ⟨by decide, hplan, hjoin.1, hjoin.2.1, hjoin.2.2, ?_, ?_, hgone "a" (by decide)⟩
  · simpa [htwo] using hmoved.1 1
  · exact hmoved.2.1 "b" (by decide) 1 _ hserves

end Planner

end ReplicaCluster
