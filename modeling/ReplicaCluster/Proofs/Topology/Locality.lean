import ReplicaCluster.Proofs.Topology.Hosting

/-!
# Updates are local, and independent ones commute

Every update but an overwriting is a revision of the one member that it is addressed to:
`Update.revise` says what it makes of that member's state, and `Update.apply_eq` that it does no more
than this.  What a topology keeps under an update follows from what a member keeps under a revision,
and so does that updates of two members may be made in either order
(`Update.local_and_independent`).
-/

namespace ReplicaCluster

namespace Update

/-- The update is about one member; it overwrites no hosts. -/
def Single (u : Update) : Prop := ∀ p priorities, u ≠ .overwriteReplicas p priorities

/-- The partition that the update names. -/
def partition? : Update → Option PartitionId
  | .unchanged | .memberJoining | .memberActive | .memberLeaving | .memberRemoved => none
  | .replicaJoining p _ | .replicaActive p | .replicaLeaving p | .replicaRemoved p
  | .replicaPriority p _ | .overwriteReplicas p _ => some p

/-- What a single update makes of the member that it is addressed to; `none` stands for its
absence. -/
def revise (u : Update) (m : Option Member) : Option Member :=
  match u with
  | .unchanged | .overwriteReplicas .. => m
  | .memberJoining =>
      match m with
      | some m => some (m.withStatus .joining)
      | none => some .joining
  | .memberActive => m.map (·.withStatus .active)
  | .memberLeaving => m.map (·.withStatus .leaving)
  | .memberRemoved => none
  | .replicaJoining p priority => m.map (·.withReplica p (.joining priority))
  | .replicaActive p => m.map (·.modifyReplica p fun r => { r with status := .active })
  | .replicaLeaving p => m.map (·.modifyReplica p fun r => { r with status := .leaving })
  | .replicaRemoved p => m.map (·.withoutReplica p)
  | .replicaPriority p priority => m.map (·.modifyReplica p fun r => { r with priority })

/-- By how much an update raises the version of the topology. -/
def ages : Update → Nat
  | .unchanged => 0
  | _ => 1

variable {u v : Update} {m n id : MemberId} {p q : PartitionId} {t : Topology} {x x' : Member}

/-! ## What becomes of the member -/

/-- Only a member that joins comes into being. -/
theorem isSome_revise_none_iff : (u.revise none).isSome ↔ u = .memberJoining := by
  cases u <;> simp [revise]

theorem revise_none (h : u ≠ .memberJoining) : u.revise none = none := by
  rw [← Option.not_isSome_iff_eq_none, isSome_revise_none_iff]
  exact h

/-- Only a member that is removed ceases to be. -/
theorem revise_some_eq_none_iff : u.revise (some x) = none ↔ u = .memberRemoved := by
  cases u <;> simp [revise]

/-- An update that names a partition leaves the status of the member. -/
theorem status_of_revise (named : u.partition?.isSome) :
    (u.revise (some x)).map (·.status) = some x.status := by
  cases u with
  | unchanged | memberJoining | memberActive | memberLeaving | memberRemoved =>
      simp [partition?] at named
  | _ => simp [revise]

/-- It leaves all replicas of other partitions, and one that names no partition leaves all. -/
theorem replica?_of_revise (kept : u ≠ .memberRemoved) (other : u.partition? ≠ some q) :
    (u.revise (some x)).bind (·.replica? q) = x.replica? q := by
  cases u with
  | memberRemoved => exact absurd rfl kept
  | unchanged | memberJoining | memberActive | memberLeaving | overwriteReplicas => simp [revise]
  | _ =>
      have hne : _ ≠ q := fun h => other (congrArg some h)
      simp [revise, hne]

theorem modifyReplica_of_absent (f : Replica → Replica) (absent : x.replica? p = none) :
    x.modifyReplica p f = x := by
  simp [Member.modifyReplica, absent]

/-- A replica that is not there is neither revised nor removed. -/
theorem revise_of_absent (named : u.partition? = some p) (absent : x.replica? p = none)
    (filled : ∀ priority, u ≠ .replicaJoining p priority) : u.revise (some x) = some x := by
  cases u with
  | unchanged | memberJoining | memberActive | memberLeaving | memberRemoved =>
      simp [partition?] at named
  | overwriteReplicas => rfl
  | replicaJoining q priority =>
      have hq : q = p := by simpa [partition?] using named
      exact absurd (congrArg (Update.replicaJoining · priority) hq) (filled priority)
  | replicaRemoved q =>
      have hq : q = p := by simpa [partition?] using named
      simp [revise, Member.withoutReplica, Member.hosts_eq_isSome, hq, absent]
  | replicaActive q | replicaLeaving q | replicaPriority q _ =>
      have hq : q = p := by simpa [partition?] using named
      simp [revise, hq, modifyReplica_of_absent _ absent]

/-! ## What becomes of the topology -/

/-- A single update is a revision of its member. -/
theorem apply_eq (single : u.Single) : u.apply m t =
    { t with version := t.version + u.ages, members := t.members.alter m u.revise } := by
  cases u with
  | overwriteReplicas p priorities => exact absurd rfl (single p priorities)
  | unchanged =>
      have hsame : t.members.alter m (revise .unchanged) = t.members :=
        Std.ExtTreeMap.ext_getElem? fun id => by
          rw [Std.ExtTreeMap.getElem?_alter]
          split
          · next h => rw [Std.LawfulEqCmp.eq_of_compare h, revise]
          · rfl
      rw [hsame]
      rfl
  | _ => rfl

theorem member?_apply (single : u.Single) : (u.apply m t).member? id =
    if m = id then u.revise (t.member? m) else t.member? id := by
  simp [apply_eq single, Topology.member?, Std.ExtTreeMap.getElem?_alter]

/-- Unless it overwrites hosts, an update revises no other member than the one that it is addressed
to. -/
theorem member?_apply_of_ne (other : m ≠ id) (single : u.Single) :
    (u.apply m t).member? id = t.member? id := by
  rw [member?_apply single, if_neg other]

theorem member?_apply_self (single : u.Single) :
    (u.apply m t).member? m = u.revise (t.member? m) := by
  rw [member?_apply single, if_pos rfl]

theorem members_apply_of_revise (single : u.Single)
    (h : u.revise (t.member? m) = t.member? m) : (u.apply m t).members = t.members := by
  refine Std.ExtTreeMap.ext_getElem? fun id => ?_
  show (u.apply m t).member? id = t.member? id
  rw [member?_apply single]
  split
  · next hid => rw [h, hid]
  · rfl

/-- What a single update of `m` may do to a topology. -/
structure Local (u : Update) (m : MemberId) (t t' : Topology) : Prop where
  others : ∀ id, id ≠ m → t'.member? id = t.member? id
  ledger : t'.initialized = t.initialized ∧ t'.pending = t.pending ∧ t'.lastChange = t.lastChange
  /-- An update that names a partition leaves the status. -/
  status : u.partition?.isSome → t'.status? m = t.status? m
  /-- All replicas are left but those of the partition that the update names, if it names one. -/
  replicas : u ≠ .memberRemoved → ∀ q, u.partition? ≠ some q →
    t'.replica? m q = t.replica? m q
  created : t.member? m = none → ((t'.member? m).isSome ↔ u = .memberJoining)
  removed : (t.member? m).isSome → (t'.member? m = none ↔ u = .memberRemoved)
  absentMember : t.member? m = none → u ≠ .memberJoining → t'.members = t.members
  absentReplica : ∀ p, u.partition? = some p → t.replica? m p = none →
    (∀ priority, u ≠ .replicaJoining p priority) → t'.members = t.members

theorem local_apply (single : u.Single) : u.Local m t (u.apply m t) where
  others := fun _ hne => member?_apply_of_ne hne.symm single
  ledger := ⟨initialized_apply u m t, pending_apply u m t, lastChange_apply u m t⟩
  status := by
    intro named
    rw [Topology.status?, Topology.status?, member?_apply_self single]
    cases hm : t.member? m with
    | some x => exact status_of_revise named
    | none =>
        have hjoining : u ≠ .memberJoining := by
          rintro rfl
          simp [partition?] at named
        rw [revise_none hjoining]
  replicas := by
    intro kept q other
    rw [Topology.replica?, Topology.replica?, member?_apply_self single]
    cases hm : t.member? m with
    | some x => exact replica?_of_revise kept other
    | none =>
        -- A member that comes into being hosts nothing.
        by_cases hjoining : u = .memberJoining
        · simp [hjoining, revise, Member.joining, Member.replica?]
        · rw [revise_none hjoining]
  created := by
    intro absent
    rw [member?_apply_self single, absent]
    exact isSome_revise_none_iff
  removed := by
    intro present
    rcases Option.isSome_iff_exists.1 present with ⟨x, hx⟩
    rw [member?_apply_self single, hx]
    exact revise_some_eq_none_iff
  absentMember := by
    intro absent hjoining
    refine members_apply_of_revise single ?_
    rw [absent, revise_none hjoining]
  absentReplica := by
    intro p named absent filled
    refine members_apply_of_revise single ?_
    cases hm : t.member? m with
    | some x =>
        have hx : x.replica? p = none := by simpa [Topology.replica?, hm] using absent
        exact revise_of_absent named hx filled
    | none =>
        refine revise_none ?_
        rintro rfl
        simp [partition?] at named

/-! ## Two updates -/

theorem alter_alter_of_ne {members : SortedMap MemberId Member} {f g : Option Member → Option Member}
    (hne : m ≠ n) : (members.alter m f).alter n g = (members.alter n g).alter m f := by
  refine Std.ExtTreeMap.ext_getElem? fun id => ?_
  by_cases hm : m = id
  · have hn : n ≠ id := fun h => hne (hm.trans h.symm)
    simp [Std.ExtTreeMap.getElem?_alter, hm, hn]
  · by_cases hn : n = id
    · simp [Std.ExtTreeMap.getElem?_alter, hm, hn]
    · simp [Std.ExtTreeMap.getElem?_alter, hm, hn]

theorem apply_comm (hu : u.Single) (hv : v.Single) (hne : m ≠ n) (t : Topology) :
    v.apply n (u.apply m t) = u.apply m (v.apply n t) := by
  rw [apply_eq hu, apply_eq hv, apply_eq hv, apply_eq hu, alter_alter_of_ne hne,
    Nat.add_right_comm]

/-- A single update leaves all but its member as it was, and of its member all but the status or the
one replica that it is about.  Only a joining member comes into being, and only a removed one goes;
an update of a member or a replica that is not there changes no member.  An overwriting leaves the
other partitions, all statuses and the set of members.  Single updates of two members come to the
same in either order. -/
theorem local_and_independent :
    (∀ (u : Update) (m : MemberId) (t : Topology), u.Single → u.Local m t (u.apply m t)) ∧
      (∀ (p : PartitionId) (priorities : Priorities) (m : MemberId) (t : Topology),
        let t' := (Update.overwriteReplicas p priorities).apply m t
        (∀ id q, q ≠ p → t'.replica? id q = t.replica? id q) ∧
          (∀ id, t'.status? id = t.status? id) ∧ ∀ id, t'.hasMember id = t.hasMember id) ∧
      ∀ (u v : Update) (m n : MemberId) (t : Topology), u.Single → v.Single → m ≠ n →
        v.apply n (u.apply m t) = u.apply m (v.apply n t) := by
  refine ⟨fun u m t single => local_apply single, fun p priorities m t => ?_,
    fun u v m n t hu hv hne => apply_comm hu hv hne t⟩
  have hstatus : ∀ id, (t.overwriteReplicas p priorities).status? id = t.status? id :=
    fun id => Topology.status?_overwriteReplicas priorities
  refine ⟨fun id q hq => ?_, hstatus, fun id => ?_⟩
  · exact (Topology.replica?_overwriteReplicas priorities).trans (if_neg hq.symm)
  · rw [Topology.hasMember_eq_isSome, Topology.hasMember_eq_isSome]
    exact congrArg Option.isSome (hstatus id)

/-- A late confirmation for a replica that is gone, and the removal of another member. -/
theorem local_and_independent_late :
    let t : Topology := { Topology.initial with
      members := .ofList
        [("a", Member.active (.ofList [(1, Replica.active 2)])), ("b", Member.active ∅)] }
    let late := Update.replicaActive 2
    let removal := Update.memberRemoved
    let overwriting := Update.overwriteReplicas 2 (.ofList [("b", 1)])
    late.Single ∧ removal.Single ∧ t.replica? "a" 2 = none ∧
      (late.apply "a" t).members = t.members ∧
      removal.apply "b" (late.apply "a" t) = late.apply "a" (removal.apply "b" t) ∧
      (removal.apply "b" t).member? "b" = none ∧
      (overwriting.apply "a" t).replica? "a" 1 = some (.active 2) := by
  intro t late removal overwriting
  rcases local_and_independent with ⟨hlocal, hoverwriting, hindependent⟩
  have hlate : late.Single := by simp [late, Single]
  have hremoval : removal.Single := by simp [removal, Single]
  have habsent : t.replica? "a" 2 = none := by decide +kernel
  have hpresent : (t.member? "b").isSome := by decide +kernel
  refine ⟨hlate, hremoval, habsent, ?_, ?_, ?_, ?_⟩
  · exact (hlocal late "a" t hlate).absentReplica 2 rfl habsent (by simp [late])
  · exact hindependent late removal "a" "b" t hlate hremoval (by decide)
  · exact ((hlocal removal "b" t hremoval).removed hpresent).2 rfl
  · rw [(hoverwriting 2 _ "a" t).1 "a" 1 (by decide)]
    decide +kernel

end Update

end ReplicaCluster
