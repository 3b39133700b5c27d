import ReplicaCluster.Proofs.Execution.Replay
import ReplicaCluster.Proofs.Planning.Moves

/-!
# Carrying out moves

At any time between the first and the last move, each replica is either still the one of the old
placement or already the one of the new placement, depending on whether its move is yet to come
(`Amid`).  From that every move finds what it needs: a join finds a host of the old placement, as
no departure has happened yet, and a departure finds all hosts of the new placement, as all joins
are done (`Amid.exists_ready`).

Members join the cluster before the first move and leave it after the last one.
-/

namespace ReplicaCluster

namespace Topology

/-- Distinct hosts count. -/
theorem length_le_replicaCount {t : Topology} {p : PartitionId} {ms : List MemberId}
    (distinct : ms.Nodup) (hosting : ∀ m ∈ ms, (t.replica? m p).isSome) :
    ms.length ≤ t.replicaCount p := by
  have hsubset : ms.toFinset ⊆ t.hosts p := by
    intro m hm
    exact mem_hosts_iff.2 (hosting m (List.mem_toFinset.1 hm))
  calc ms.length
    _ = ms.toFinset.card := (List.toFinset_card_of_nodup distinct).symm
    _ ≤ (t.hosts p).card := Finset.card_le_card hsubset
    _ = t.replicaCount p := replicaCount_eq_card_hosts.symm

end Topology

namespace Planner

open ReplicaCluster.Operation ReplicaCluster.Topology

variable {settings : Settings} {base u : Topology} {current target : Placement} {op : Operation}
  {prepared : Prepared} {rest : List Operation} {m id : MemberId} {p q : PartitionId}
  {before after : Option Priority}

/-! ## The effect of a move -/

namespace Move

theorem status_eq (h : Move m p before after op) (id : MemberId) (s : Option Status) :
    op.confirmsStatus id (op.marksStatus id s) = s := by
  cases h <;> rfl

theorem replica_eq (h : Move m p before after op) :
    op.confirms m p (op.marks m p (before.map Replica.active)) = after.map Replica.active := by
  cases h with
  | join priority => simp [marks, confirms, Replica.active, Replica.joining]
  | promote changes => simp [marks, confirms, Replica.active]
  | depart old => simp [confirms]

theorem replica_eq_of_ne (h : Move m p before after op) (other : (id, q) ≠ (m, p))
    (r : Option Replica) : op.confirms id q (op.marks id q r) = r := by
  have hother : ¬ (m = id ∧ p = q) := by
    rintro ⟨rfl, rfl⟩
    exact other rfl
  cases h with
  | join priority => simp [marks, confirms, hother]
  | promote changes => simp [marks, confirms, hother]
  | depart old => simp [marks, confirms, hother]

end Move

/-! ## Amid the moves -/

/-- What the way from one placement to another takes: each partition has a host, and will have
enough of them, and all members that are or will be hosts are active. -/
structure Feasible (settings : Settings) (base : Topology) (current target : Placement) :
    Prop where
  hosted : ∀ p ∈ target, ∃ m, (current.priority? p m).isSome
  active : ∀ p m, (current.priority? p m).isSome ∨ (target.priority? p m).isSome →
    base.status? m = some .active
  enough : ∀ p ∈ target, ∃ chosen : List MemberId, chosen.Nodup ∧
    settings.floor ≤ chosen.length ∧ ∀ m ∈ chosen, (target.priority? p m).isSome

/-- The replicas with a move to come are those of the old placement, all others are those of the
new one. -/
structure Amid (base : Topology) (current target : Placement) (rest : List Operation)
    (u : Topology) : Prop where
  status? : ∀ id, u.status? id = base.status? id
  replica? : ∀ id p, u.replica? id p =
    ((if (id, some p) ∈ rest.map site then current else target).priority? p id).map Replica.active

/-- Where there is no move the placements agree. -/
theorem priority?_eq_of_no_move (partitions : ∀ p, p ∈ target ↔ p ∈ current)
    (still : (id, some p) ∉ (moves current target).map site) :
    current.priority? p id = target.priority? p id := by
  by_cases hp : p ∈ target
  · by_contra hdiffer
    rcases exists_move id p hdiffer with ⟨op, hmove⟩
    have hop : op ∈ moves current target := mem_moves_iff.2 ⟨p, id, hp, hmove⟩
    exact still (List.mem_map.2 ⟨op, hop, hmove.site_eq⟩)
  · rw [Placement.priority?_of_not_mem hp,
      Placement.priority?_of_not_mem fun h => hp ((partitions p).2 h)]

namespace Amid

theorem replica?_of_site (h : Amid base current target (op :: rest) u)
    (hmove : Move m p before after op) :
    u.replica? m p = (current.priority? p m).map Replica.active := by
  have hsite : (m, some p) ∈ (op :: rest).map site := by simp [hmove.site_eq]
  rw [h.replica?, if_pos hsite]

theorem perform (h : Amid base current target (op :: rest) u)
    (hmove : Move m p (current.priority? p m) (target.priority? p m) op)
    (fresh : op.site ∉ rest.map site) (ready : Ready settings u op prepared) :
    Amid base current target rest (prepared.perform op.member u) := by
  refine ⟨fun id => ?_, fun id q => ?_⟩
  · rw [ready.status?_perform, hmove.status_eq, h.status?]
  · rw [ready.replica?_perform]
    by_cases hown : (id, q) = (m, p)
    · cases hown
      rw [hmove.site_eq] at fresh
      rw [h.replica?_of_site hmove, hmove.replica_eq, if_neg fresh]
    · -- The other sites are yet to come as before.
      have hsite : (id, some q) ∈ (op :: rest).map site ↔ (id, some q) ∈ rest.map site := by
        have hne : (id, some q) ≠ op.site := by
          rw [hmove.site_eq]
          intro heq
          cases heq
          exact hown rfl
        simp only [List.map_cons, List.mem_cons, hne, false_or]
      rw [hmove.replica_eq_of_ne hown, h.replica?]
      simp only [hsite]

/-- While all departures are yet to come, the hosts of the old placement are there. -/
theorem isSome_of_current (h : Amid base current target rest u) (hp : p ∈ target)
    (departures : ∀ op ∈ moves current target, op.IsDeparture → op ∈ rest)
    (hosted : (current.priority? p id).isSome) : (u.replica? id p).isSome := by
  rw [h.replica?, Option.isSome_map]
  by_cases hsite : (id, some p) ∈ rest.map site
  · rwa [if_pos hsite]
  · rw [if_neg hsite]
    by_contra hgone
    rcases Option.isSome_iff_exists.1 hosted with ⟨old, hold⟩
    have hmove : Move id p (current.priority? p id) (target.priority? p id)
        ⟨id, .leavePartition p⟩ := by
      simpa only [hold, Option.not_isSome_iff_eq_none.1 hgone] using Move.depart old
    have hrest := departures _ (mem_moves_iff.2 ⟨p, id, hp, hmove⟩) ⟨p, rfl⟩
    exact hsite (List.mem_map.2 ⟨_, hrest, rfl⟩)

/-- Once all joins are done, the hosts of the new placement are there. -/
theorem isSome_of_target (h : Amid base current target rest u)
    (known : ∀ op ∈ rest, op ∈ moves current target) (joined : ∀ op ∈ rest, ¬ op.IsJoin)
    (hosted : (target.priority? p id).isSome) : (u.replica? id p).isSome := by
  rw [h.replica?, Option.isSome_map]
  by_cases hsite : (id, some p) ∈ rest.map site
  · rw [if_pos hsite]
    by_contra hmissing
    rcases List.mem_map.1 hsite with ⟨op, hop, hopSite⟩
    rcases mem_moves_iff.1 (known op hop) with ⟨p', id', -, hmove⟩
    rw [hmove.site_eq] at hopSite
    cases hopSite
    -- From no replica to one there is no move but a join.
    rw [Option.not_isSome_iff_eq_none.1 hmissing] at hmove
    generalize target.priority? p id = after at hmove
    cases hmove with
    | join priority => exact joined _ hop ⟨p, priority, rfl⟩
  · rwa [if_neg hsite]

theorem exists_ready (h : Amid base current target (op :: rest) u)
    (feasible : Feasible settings base current target) (hp : p ∈ target)
    (hmove : Move m p (current.priority? p m) (target.priority? p m) op)
    (known : ∀ op' ∈ op :: rest, op' ∈ moves current target)
    (departures : op.IsJoin → ∀ op' ∈ moves current target, op'.IsDeparture → op' ∈ op :: rest)
    (joined : op.IsDeparture → ∀ op' ∈ op :: rest, ¬ op'.IsJoin) :
    ∃ prepared, Ready settings u op prepared := by
  have hown := h.replica?_of_site hmove
  have hactive : (current.priority? p m).isSome ∨ (target.priority? p m).isSome →
      u.status? m = some .active := by
    intro hhost
    rw [h.status?]
    exact feasible.active p m hhost
  generalize hbefore : current.priority? p m = before at hmove hown hactive
  generalize hafter : target.priority? p m = after at hmove hactive
  cases hmove with
  | join priority =>
      rcases feasible.hosted p hp with ⟨host, hhost⟩
      have hthere := h.isSome_of_current hp (departures ⟨p, priority, rfl⟩) hhost
      refine ⟨_, .joinPartition (hactive (Or.inr rfl)) (by simp [hown]) ?_⟩
      -- The host is another member, so there is something to copy.
      intro halone
      have hother : m ≠ host := by
        rintro rfl
        simp [hbefore] at hhost
      have hentry := congrArg (fun priorities : Priorities => (priorities[host]?).isSome) halone
      simp [Std.ExtTreeMap.getElem?_erase, hother, getElem?_priorities, hthere] at hentry
  | promote changes =>
      exact ⟨_, .setPriority (hactive (Or.inl rfl)) hown rfl⟩
  | depart old =>
      rcases feasible.enough p hp with ⟨chosen, hdistinct, henough, hchosen⟩
      refine ⟨_, .leavePartition (hactive (Or.inl rfl)) (by simp [hown]) ?_⟩
      -- The leaver comes on top of the hosts of the new placement.
      have hleaver : m ∉ chosen := by
        intro hm
        simpa [hafter] using hchosen m hm
      have hcount : (m :: chosen).length ≤ u.replicaCount p := by
        refine length_le_replicaCount (hdistinct.cons hleaver) ?_
        refine List.forall_mem_cons.2 ⟨by simp [hown], fun id hid => ?_⟩
        exact h.isSome_of_target known (joined ⟨p, rfl⟩) (hchosen id hid)
      simp only [List.length_cons] at hcount
      omega

/-- What is left of the moves can be carried out, to the new placement. -/
theorem exists_replay (feasible : Feasible settings base current target) :
    ∀ (rest : List Operation) {done : List Operation} {u : Topology},
      done ++ rest = moves current target → Amid base current target rest u →
      ∃ final, Replay settings u rest final ∧ Amid base current target [] final := by
  intro rest
  induction rest with
  | nil =>
      intro done u _ h
      exact ⟨u, .nil (.refl u), h⟩
  | cons op rest ih =>
      intro done u hsplit h
      have hsites := nodup_sites_moves current target
      have horder := pairwise_moves current target
      rw [← hsplit] at hsites horder
      have hmem : ∀ op' ∈ op :: rest, op' ∈ moves current target := fun op' hop' => by
        rw [← hsplit]
        exact List.mem_append_right done hop'
      have hfresh : op.site ∉ rest.map site := by
        have htail := (List.map_append ▸ hsites).of_append_right
        exact (List.nodup_cons.1 (by simpa only [List.map_cons] using htail)).1
      rcases List.pairwise_append.1 horder with ⟨-, hlater, hacross⟩
      have hdepartures : op.IsJoin → ∀ op' ∈ moves current target, op'.IsDeparture →
          op' ∈ op :: rest := by
        intro hjoin op' hop' hdeparture
        rw [← hsplit] at hop'
        rcases List.mem_append.1 hop' with hdone | hrest
        · exact absurd hjoin (hacross op' hdone op List.mem_cons_self hdeparture)
        · exact hrest
      have hjoined : op.IsDeparture → ∀ op' ∈ op :: rest, ¬ op'.IsJoin := by
        intro hdeparture
        refine List.forall_mem_cons.2 ⟨?_, fun op' hop' => ?_⟩
        · rcases hdeparture with ⟨p, haction⟩
          simp [IsJoin, haction]
        · exact (List.pairwise_cons.1 hlater).1 op' hop' hdeparture
      rcases mem_moves_iff.1 (hmem op List.mem_cons_self) with ⟨p, m, hp, hmove⟩
      rcases h.exists_ready feasible hp hmove hmem hdepartures hjoined with ⟨prepared, ready⟩
      have hsplit' : (done ++ [op]) ++ rest = moves current target := by simpa using hsplit
      rcases ih hsplit' (h.perform hmove hfresh ready) with ⟨final, hreplay, hfinal⟩
      exact ⟨final, .cons ready hreplay, hfinal⟩

end Amid

/-! ## Members that join and leave the cluster -/

/-- One operation on each of several members that host nothing, which takes the status of its member
from `start` to `outcome`. -/
theorem exists_replay_members {action : Action} {start outcome : Option Status}
    (status : ∀ m id s, (⟨m, action⟩ : Operation).confirmsStatus id
      ((⟨m, action⟩ : Operation).marksStatus id s) = if m = id then outcome else s)
    (replica : ∀ m id p r, (⟨m, action⟩ : Operation).confirms id p
      ((⟨m, action⟩ : Operation).marks id p r) = r)
    (admitted : ∀ (u : Topology) (m : MemberId), u.status? m = start →
      (∀ p, u.replica? m p = none) → ∃ prepared, Ready settings u ⟨m, action⟩ prepared) :
    ∀ (ids : List MemberId) {u : Topology}, ids.Nodup →
      (∀ id ∈ ids, u.status? id = start ∧ ∀ p, u.replica? id p = none) →
      ∃ final, Replay settings u (ids.map (⟨·, action⟩)) final ∧
        (∀ id, final.status? id = if id ∈ ids then outcome else u.status? id) ∧
        ∀ id p, final.replica? id p = u.replica? id p := by
  intro ids
  induction ids with
  | nil =>
      intro u _ _
      exact ⟨u, .nil (.refl u), by simp, fun _ _ => rfl⟩
  | cons m rest ih =>
      intro u distinct idle
      rcases List.nodup_cons.1 distinct with ⟨hfresh, hrest⟩
      rcases List.forall_mem_cons.1 idle with ⟨⟨hstart, hempty⟩, hidle⟩
      rcases admitted u m hstart hempty with ⟨prepared, ready⟩
      have hstatus : ∀ id, (prepared.perform m u).status? id =
          if m = id then outcome else u.status? id :=
        fun id => (ready.status?_perform id).trans (status m id _)
      have hreplica : ∀ id p, (prepared.perform m u).replica? id p = u.replica? id p :=
        fun id p => (ready.replica?_perform id p).trans (replica m id p _)
      -- The other members are as before, so their operations are admitted as well.
      have hlater : ∀ id ∈ rest, (prepared.perform m u).status? id = start ∧
          ∀ p, (prepared.perform m u).replica? id p = none := by
        intro id hid
        have hne : m ≠ id := by
          rintro rfl
          exact hfresh hid
        refine ⟨?_, fun p => ?_⟩
        · rw [hstatus, if_neg hne, (hidle id hid).1]
        · rw [hreplica, (hidle id hid).2]
      rcases ih hrest hlater with ⟨final, hreplay, hfinal, hsame⟩
      refine ⟨final, .cons ready hreplay, fun id => ?_, fun id p => ?_⟩
      · rw [hfinal, hstatus]
        by_cases hid : m = id
        · subst hid; simp
        · simp [hid, Ne.symm hid]
      · rw [hsame, hreplica]

theorem exists_replay_joinCluster (settings : Settings) {ids : List MemberId} (distinct : ids.Nodup)
    (unknown : ∀ id ∈ ids, u.status? id = none) :
    ∃ final, Replay settings u (ids.map (⟨·, .joinCluster⟩)) final ∧
      (∀ id, final.status? id = if id ∈ ids then some .active else u.status? id) ∧
      ∀ id p, final.replica? id p = u.replica? id p := by
  refine exists_replay_members ?_ (fun _ _ _ _ => rfl) ?_ ids distinct
    fun id hid => ⟨unknown id hid, fun p => replica?_eq_none_of_absent (unknown id hid)⟩
  · intro m id s
    by_cases hid : m = id
    · simp [confirmsStatus, marksStatus, hid]
    · simp [confirmsStatus, marksStatus, hid]
  · intro u m hnone _
    exact ⟨_, .joinCluster (by simp [hnone])⟩

end Planner

end ReplicaCluster
