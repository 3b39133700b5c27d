import ReplicaCluster.Proofs.Execution.Performing

/-!
# Plans that empty members

A plan that removes members is an `Evacuation`: it hands over replicas where they are scarce, gives
them up where there are enough, and lets members go that host nothing any more.  `Orderly` says what
such a plan keeps to at each of its stages, by induction on it (`Evacuation.orderly`).
-/

namespace ReplicaCluster

namespace Planner

open ReplicaCluster.Topology

variable {leavers gone : List MemberId} {replicationFactor : Nat} {t t₀ : Topology}
  {ops ops' rest : List Operation} {m other member id : MemberId} {p q : PartitionId}
  {priority : Priority}

/-! ## Evacuations -/

/-- A plan that takes members out of the cluster, as far as it goes. -/
inductive Evacuation (leavers : List MemberId) (replicationFactor : Nat) :
    Topology → List Operation → Prop
  | nil {t : Topology} : Evacuation leavers replicationFactor t []
  /-- A replica that cannot be spared is handed over to a member that stays. -/
  | handover {t : Topology} {m other : MemberId} {p : PartitionId} {r : Replica}
      {rest : List Operation} (leaver : m ∈ leavers) (hosted : t.replica? m p = some r)
      (scarce : t.replicaCount p - 1 < replicationFactor) (stays : other ∉ leavers)
      (active : t.status? other = some .active) (free : t.replica? other p = none)
      (tail : Evacuation leavers replicationFactor
        (t.performAll [⟨other, .joinPartition p r.priority⟩, ⟨m, .leavePartition p⟩]) rest) :
      Evacuation leavers replicationFactor t
        (⟨other, .joinPartition p r.priority⟩ :: ⟨m, .leavePartition p⟩ :: rest)
  /-- A replica that can be spared is given up. -/
  | departure {t : Topology} {m : MemberId} {p : PartitionId} {rest : List Operation}
      (leaver : m ∈ leavers) (hosted : (t.replica? m p).isSome)
      (ample : replicationFactor ≤ t.replicaCount p - 1)
      (tail : Evacuation leavers replicationFactor
        (Operation.perform ⟨m, .leavePartition p⟩ t) rest) :
      Evacuation leavers replicationFactor t (⟨m, .leavePartition p⟩ :: rest)
  /-- A member that hosts nothing goes. -/
  | exit {t : Topology} {m : MemberId} {rest : List Operation} (leaver : m ∈ leavers)
      (known : (t.status? m).isSome) (empty : ∀ p, t.replica? m p = none)
      (tail : Evacuation leavers replicationFactor (Operation.perform ⟨m, .leaveCluster⟩ t) rest) :
      Evacuation leavers replicationFactor t (⟨m, .leaveCluster⟩ :: rest)

theorem Evacuation.append (h : Evacuation leavers replicationFactor t ops) :
    Evacuation leavers replicationFactor (t.performAll ops) ops' →
      Evacuation leavers replicationFactor t (ops ++ ops') := by
  induction h with
  | nil => exact id
  | handover leaver hosted scarce stays active free tail ih =>
      intro h'
      exact .handover leaver hosted scarce stays active free (ih h')
  | departure leaver hosted ample tail ih =>
      intro h'
      exact .departure leaver hosted ample (ih h')
  | exit leaver known empty tail ih =>
      intro h'
      exact .exit leaver known empty (ih h')

/-! ### A handover as a whole -/

section Handover

variable (known : (t.status? other).isSome) (differ : other ≠ m)

include known in
theorem replica?_handover :
    (t.performAll [⟨other, .joinPartition p priority⟩, ⟨m, .leavePartition p⟩]).replica? id q =
      if m = id ∧ p = q then none
      else if other = id ∧ p = q then some (.active priority) else t.replica? id q := by
  simp only [performAll_cons, performAll_nil, replica?_perform_leavePartition,
    replica?_perform_joinPartition known]

theorem status?_handover :
    (t.performAll [⟨other, .joinPartition p priority⟩, ⟨m, .leavePartition p⟩]).status? id =
      t.status? id := by
  simp only [performAll_cons, performAll_nil, status?_perform_leavePartition,
    status?_perform_joinPartition]

include known differ in
theorem replicaCount_handover (hosted : (t.replica? m p).isSome)
    (free : t.replica? other p = none) :
    (t.performAll [⟨other, .joinPartition p priority⟩, ⟨m, .leavePartition p⟩]).replicaCount q =
      t.replicaCount q := by
  have hhosted : ((Operation.perform ⟨other, .joinPartition p priority⟩ t).replica? m p).isSome := by
    simpa [replica?_perform_joinPartition known, differ] using hosted
  simp only [performAll_cons, performAll_nil, replicaCount_perform_leavePartition hhosted,
    replicaCount_perform_joinPartition known free]
  split <;> rfl

end Handover

/-! ## What an evacuation keeps -/

/-- The partitions are above the floor or have all that they started with, and whoever stays has
all its replicas. -/
structure Intact (t₀ : Topology) (leavers : List MemberId) (replicationFactor : Nat)
    (t : Topology) : Prop where
  floor : ∀ p, min (t₀.replicaCount p) replicationFactor ≤ t.replicaCount p
  kept : ∀ id, id ∉ leavers → ∀ p r, t₀.replica? id p = some r → t.replica? id p = some r

namespace Intact

theorem refl (t : Topology) : Intact t leavers replicationFactor t :=
  ⟨fun _ => min_le_left _ _, fun _ _ _ _ hr => hr⟩

theorem join (h : Intact t₀ leavers replicationFactor t) (known : (t.status? m).isSome)
    (free : t.replica? m p = none) :
    Intact t₀ leavers replicationFactor
      (Operation.perform ⟨m, .joinPartition p priority⟩ t) := by
  refine ⟨?_, ?_⟩
  · intro q
    rw [replicaCount_perform_joinPartition known free]
    split
    · exact (h.floor q).trans (Nat.le_succ _)
    · exact h.floor q
  · intro id hid q r hr
    -- The new replica is where there was none.
    rw [replica?_perform_joinPartition known, if_neg]
    · exact h.kept id hid q r hr
    · rintro ⟨rfl, rfl⟩
      have hr' := h.kept m hid p r hr
      simp [free] at hr'

theorem leave (h : Intact t₀ leavers replicationFactor t) (leaver : m ∈ leavers)
    (hosted : (t.replica? m p).isSome)
    (enough : min (t₀.replicaCount p) replicationFactor ≤ t.replicaCount p - 1) :
    Intact t₀ leavers replicationFactor (Operation.perform ⟨m, .leavePartition p⟩ t) := by
  refine ⟨?_, ?_⟩
  · intro q
    rw [replicaCount_perform_leavePartition hosted]
    split
    · next hq => rwa [← hq]
    · exact h.floor q
  · intro id hid q r hr
    rw [replica?_perform_leavePartition, if_neg]
    · exact h.kept id hid q r hr
    · rintro ⟨rfl, -⟩
      exact hid leaver

theorem exit (h : Intact t₀ leavers replicationFactor t) (empty : ∀ p, t.replica? m p = none) :
    Intact t₀ leavers replicationFactor (Operation.perform ⟨m, .leaveCluster⟩ t) := by
  refine ⟨?_, ?_⟩
  · intro q
    simpa only [replicaCount_perform_leaveCluster_of_empty empty] using h.floor q
  · intro id hid q r hr
    simpa only [replica?_perform_leaveCluster_of_empty empty] using h.kept id hid q r hr

end Intact

/-- A stage of a plan: nothing is lost so far, and the next operation sends no replica where it
cannot stay and no member away that still hosts one. -/
structure Orderly (t₀ : Topology) (leavers : List MemberId) (replicationFactor : Nat)
    (t : Topology) (rest : List Operation) : Prop where
  intact : Intact t₀ leavers replicationFactor t
  join : ∀ m p priority later, rest = ⟨m, .joinPartition p priority⟩ :: later →
    m ∉ leavers ∧ t.status? m = some .active ∧ t.replica? m p = none
  exit : ∀ m later, rest = ⟨m, .leaveCluster⟩ :: later → ∀ p, t.replica? m p = none

/-- Every stage of an evacuation is orderly. -/
theorem Evacuation.orderly (h : Evacuation leavers replicationFactor t ops) :
    Intact t₀ leavers replicationFactor t →
      t.Throughout (Orderly t₀ leavers replicationFactor) ops := by
  induction h with
  | nil =>
      intro intact
      exact ⟨intact, by simp, by simp⟩
  | @handover t m other p r rest leaver hosted scarce stays active free tail ih =>
      intro intact
      have hknown : (t.status? other).isSome := by simp [active]
      have hdiffer : other ≠ m := fun heq => stays (heq ▸ leaver)
      -- With the new replica there is one to spare.
      have hjoined : Intact t₀ leavers replicationFactor
          (Operation.perform ⟨other, .joinPartition p r.priority⟩ t) :=
        intact.join hknown free
      have hhosted :
          ((Operation.perform ⟨other, .joinPartition p r.priority⟩ t).replica? m p).isSome := by
        simp [replica?_perform_joinPartition hknown, hdiffer, hosted]
      have henough : min (t₀.replicaCount p) replicationFactor ≤
          (Operation.perform ⟨other, .joinPartition p r.priority⟩ t).replicaCount p - 1 := by
        simpa [replicaCount_perform_joinPartition hknown free] using intact.floor p
      refine ⟨⟨intact, ?_, by simp⟩, ⟨hjoined, by simp, by simp⟩,
        ih (hjoined.leave leaver hhosted henough)⟩
      rintro m' p' priority' later heq
      cases heq
      exact ⟨stays, active, free⟩
  | departure leaver hosted ample tail ih =>
      intro intact
      exact ⟨⟨intact, by simp, by simp⟩,
        ih (intact.leave leaver hosted ((min_le_right _ _).trans ample))⟩
  | exit leaver known empty tail ih =>
      intro intact
      refine ⟨⟨intact, by simp, ?_⟩, ih (intact.exit empty)⟩
      rintro m' later heq
      cases heq
      exact empty

end Planner

end ReplicaCluster
