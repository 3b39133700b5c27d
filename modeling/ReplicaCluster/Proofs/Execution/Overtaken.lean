import ReplicaCluster.Proofs.Execution.Effects

/-!
# Writes on a topology that has moved on

An operation is checked on one topology, and its writes may meet another one.  What they take from
the hosts of a partition, and what they give, is limited even then: marking takes nothing, and
confirming takes the last host away only by a removal, a departure or an overwriting.
-/

namespace ReplicaCluster

variable {t : Topology} {u : Update} {m id : MemberId} {p q : PartitionId} {r : Replica}

/-! ## What an update takes -/

theorem Topology.isSome_modifyMember {f : Member → Member} (h : (t.replica? id p).isSome)
    (hf : ∀ x : Member, (x.replica? p).isSome → ((f x).replica? p).isSome) :
    ((t.modifyMember m f).replica? id p).isSome := by
  rw [replica?_modifyMember]
  split
  · next hid =>
      subst hid
      cases hm : t.member? m with
      | none => simp [replica?, hm] at h
      | some x => simpa using hf x (by simpa [replica?, hm] using h)
  · exact h

/-- A host that an update takes away was removed, was told to leave, or is not among the new hosts of
an overwriting. -/
theorem Update.isSome_apply (h : (t.replica? id p).isSome) :
    ((u.apply m t).replica? id p).isSome ∨
      (id = m ∧ (u = .memberRemoved ∨ u = .replicaRemoved p)) ∨
      ∃ priorities, u = .overwriteReplicas p priorities := by
  cases u with
  | unchanged => exact Or.inl h
  | memberJoining =>
      left
      simp only [apply, Topology.replica?_updateMember]
      split
      · next hid =>
          subst hid
          cases hm : t.member? m with
          | none => simp [Topology.replica?, hm] at h
          | some x => simpa [hm, Topology.replica?] using h
      · exact h
  | memberActive => exact Or.inl (Topology.isSome_modifyMember h fun x hx => hx)
  | memberLeaving => exact Or.inl (Topology.isSome_modifyMember h fun x hx => hx)
  | memberRemoved =>
      by_cases hid : m = id
      · exact Or.inr (Or.inl ⟨hid.symm, Or.inl rfl⟩)
      · left
        simpa [apply, Topology.removeMember, Topology.replica?_updateMember, hid] using h
  | replicaJoining q priority =>
      left
      refine Topology.isSome_modifyMember h fun x hx => ?_
      rw [Member.replica?_withReplica]
      split
      · rfl
      · exact hx
  | replicaRemoved q =>
      by_cases htarget : m = id ∧ q = p
      · rcases htarget with ⟨rfl, rfl⟩
        exact Or.inr (Or.inl ⟨rfl, Or.inr rfl⟩)
      · left
        simp only [apply, Topology.replica?_modifyMember]
        split
        · next hid =>
            subst hid
            cases hm : t.member? m with
            | none => simp [Topology.replica?, hm] at h
            | some x =>
                have hother : q ≠ p := fun hq => htarget ⟨rfl, hq⟩
                simpa [hm, Topology.replica?, hother] using h
        · exact h
  | overwriteReplicas q priorities =>
      by_cases hq : q = p
      · exact Or.inr (Or.inr ⟨priorities, by rw [hq]⟩)
      · left
        simpa [apply, Topology.replica?_overwriteReplicas, hq] using h
  | _ =>
      -- What is left revises a replica in its place.
      left
      refine Topology.isSome_modifyMember h fun x hx => ?_
      rw [Member.replica?_modifyReplica]
      split
      · simpa using hx
      · exact hx

/-! ## What an update gives -/

/-- Revising one member leaves a replica as it is, or makes it what the revision says. -/
theorem Topology.cases_of_modifyMember {f : Member → Member}
    (h : (t.modifyMember m f).replica? id p = some r) :
    t.replica? id p = some r ∨
      ∃ x, (∀ q, t.replica? id q = x.replica? q) ∧ (f x).replica? p = some r := by
  rw [replica?_modifyMember] at h
  split at h
  · next hid =>
      subst hid
      rcases Option.bind_eq_some_iff.1 h with ⟨x, hm, hx⟩
      exact Or.inr ⟨x, fun q => by simp [replica?, hm], hx⟩
  · exact Or.inl h

theorem Topology.cases_of_modifyReplica {f : Replica → Replica}
    (h : (t.modifyMember m (·.modifyReplica q f)).replica? id p = some r) :
    ∃ r', t.replica? id p = some r' ∧ (r' = r ∨ (q = p ∧ f r' = r)) := by
  rcases cases_of_modifyMember h with hsame | ⟨x, hviews, hx⟩
  · exact ⟨r, hsame, Or.inl rfl⟩
  · rw [Member.replica?_modifyReplica, ← hviews] at hx
    split at hx
    · next hq =>
        rcases Option.map_eq_some_iff.1 hx with ⟨r', hr', hf⟩
        exact ⟨r', hr', Or.inr ⟨hq, hf⟩⟩
    · exact ⟨r, hx, Or.inl rfl⟩

/-- Where the replicas after an update come from: they were there, with the same priority or one that
is changed now, or they have joined, or they are those of an overwriting. -/
theorem Update.origin_of_apply (h : (u.apply m t).replica? id p = some r) :
    (∃ r', t.replica? id p = some r' ∧
      (r'.priority = r.priority ∨ u = .replicaPriority p r.priority)) ∨
      u = .replicaJoining p r.priority ∨
      ∃ priorities : Priorities, u = .overwriteReplicas p priorities ∧
        priorities[id]? = some r.priority := by
  have hkept : t.replica? id p = some r →
      ∃ r', t.replica? id p = some r' ∧
        (r'.priority = r.priority ∨ u = .replicaPriority p r.priority) :=
    fun hr => ⟨r, hr, Or.inl rfl⟩
  -- Most updates leave the replica as it was, or at least its priority.
  cases u with
  | unchanged => exact Or.inl (hkept h)
  | memberJoining =>
      simp only [apply, Topology.replica?_updateMember] at h
      split at h
      · next hid =>
          subst hid
          cases hm : t.member? m with
          | none => simp [hm, Member.joining, Member.replica?] at h
          | some x => exact Or.inl (hkept (by simpa [hm, Topology.replica?] using h))
      · exact Or.inl (hkept h)
  | memberActive =>
      rcases Topology.cases_of_modifyMember h with hsame | ⟨x, hviews, hx⟩
      · exact Or.inl (hkept hsame)
      · exact Or.inl (hkept ((hviews p).trans hx))
  | memberLeaving =>
      rcases Topology.cases_of_modifyMember h with hsame | ⟨x, hviews, hx⟩
      · exact Or.inl (hkept hsame)
      · exact Or.inl (hkept ((hviews p).trans hx))
  | memberRemoved =>
      simp only [apply, Topology.removeMember, Topology.replica?_updateMember] at h
      split at h
      · simp at h
      · exact Or.inl (hkept h)
  | replicaJoining q priority =>
      rcases Topology.cases_of_modifyMember h with hsame | ⟨x, hviews, hx⟩
      · exact Or.inl (hkept hsame)
      · rw [Member.replica?_withReplica, ← hviews] at hx
        split at hx
        · next hq =>
            have hr : Replica.joining priority = r := Option.some.inj hx
            exact Or.inr (Or.inl (by rw [hq, ← hr]; rfl))
        · exact Or.inl (hkept hx)
  | replicaActive q =>
      rcases Topology.cases_of_modifyReplica h with ⟨r', hr', rfl | ⟨-, rfl⟩⟩
      · exact Or.inl (hkept hr')
      · exact Or.inl ⟨r', hr', Or.inl rfl⟩
  | replicaLeaving q =>
      rcases Topology.cases_of_modifyReplica h with ⟨r', hr', rfl | ⟨-, rfl⟩⟩
      · exact Or.inl (hkept hr')
      · exact Or.inl ⟨r', hr', Or.inl rfl⟩
  | replicaRemoved q =>
      rcases Topology.cases_of_modifyMember h with hsame | ⟨x, hviews, hx⟩
      · exact Or.inl (hkept hsame)
      · rw [Member.replica?_withoutReplica, ← hviews] at hx
        split at hx
        · simp at hx
        · exact Or.inl (hkept hx)
  | replicaPriority q priority =>
      rcases Topology.cases_of_modifyReplica h with ⟨r', hr', rfl | ⟨hq, rfl⟩⟩
      · exact Or.inl (hkept hr')
      · exact Or.inl ⟨r', hr', Or.inr (by rw [hq])⟩
  | overwriteReplicas q priorities =>
      simp only [apply, Topology.replica?_overwriteReplicas] at h
      split at h
      · next hq =>
          rcases Option.bind_eq_some_iff.1 h with ⟨-, -, hmap⟩
          rcases Option.map_eq_some_iff.1 hmap with ⟨priority, hpriority, rfl⟩
          exact Or.inr (Or.inr ⟨priorities, by rw [hq], hpriority⟩)
      · exact Or.inl (hkept h)

/-! ## The writes of an operation -/

namespace Ready

variable {settings : Settings} {t₀ : Topology} {op : Operation} {prepared : Prepared}

theorem isSome_inProgress_apply (ready : Ready settings t₀ op prepared)
    (h : (t.replica? id p).isSome) :
    ((prepared.inProgress.apply op.member t).replica? id p).isSome := by
  rcases Update.isSome_apply (u := prepared.inProgress) (m := op.member) h with
    hkept | ⟨-, hdrops⟩ | ⟨priorities, hdrops⟩
  · exact hkept
  · cases ready <;> simp at hdrops
  · cases ready <;> simp at hdrops

/-- Confirming takes the last host of a partition by a removal, a departure or an overwriting whose
new hosts are all unknown. -/
theorem cases_of_lost (ready : Ready settings t₀ op prepared) (hosted : (t.replica? id p).isSome)
    (lost : ∀ id, (prepared.confirmed.apply op.member t).replica? id p = none) :
    op = ⟨id, .leaveCluster⟩ ∨ op = ⟨id, .leavePartition p⟩ ∨
      ∃ m hosts, op = ⟨m, .overwriteHosts p hosts⟩ ∧
        ∀ host ∈ hosts, t.member? host = none := by
  rcases Update.isSome_apply (u := prepared.confirmed) (m := op.member) hosted with
    hkept | ⟨rfl, hdrops⟩ | ⟨priorities, hdrops⟩
  · simp [lost] at hkept
  · cases ready with
    | leaveCluster known settled empty => exact Or.inl rfl
    | @leavePartition m q active hosted kept =>
        have hq : q = p := by simpa using hdrops
        exact Or.inr (Or.inl (by rw [hq]))
    | _ => simp at hdrops
  · cases ready with
    | @overwriteHosts m q hosts coordinator nonempty nodup known =>
        have hq : q = p ∧ Priorities.descending hosts = priorities := by simpa using hdrops
        rcases hq with ⟨rfl, -⟩
        refine Or.inr (Or.inr ⟨m, hosts, rfl, ?_⟩)
        intro host hhost
        have hnone := lost host
        simp only [Update.apply, Topology.replica?_overwriteReplicas, if_true] at hnone
        rcases Option.isSome_iff_exists.1 (Priorities.isSome_descending.2 hhost) with
          ⟨priority, hpriority⟩
        by_contra hknown
        rcases Option.ne_none_iff_exists'.1 hknown with ⟨x, hx⟩
        simp [hx, hpriority] at hnone
    | _ => simp at hdrops

/-- Confirming gives a partition without hosts some by an overwriting only. -/
theorem overwrites_of_born (ready : Ready settings t₀ op prepared)
    (absent : ∀ id, t.replica? id p = none)
    (born : ((prepared.confirmed.apply op.member t).replica? id p).isSome) :
    ∃ m hosts, op = ⟨m, .overwriteHosts p hosts⟩ := by
  rcases Option.isSome_iff_exists.1 born with ⟨r, hr⟩
  rcases Update.origin_of_apply hr with ⟨r', hr', -⟩ | hjoins | ⟨priorities, hover, -⟩
  · simp [absent] at hr'
  · cases ready <;> simp at hjoins
  · cases ready with
    | @overwriteHosts m q hosts coordinator nonempty nodup known =>
        have hq : q = p ∧ Priorities.descending hosts = priorities := by simpa using hover
        exact ⟨m, hosts, by rw [← hq.1]⟩
    | _ => simp at hover

end Ready

end ReplicaCluster
