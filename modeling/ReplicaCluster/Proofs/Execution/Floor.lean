import ReplicaCluster.Proofs.Execution.Effects

/-!
# What the two writes of an operation leave of the hosts

Marking an operation takes no host away.  Confirming one takes away the host of a departure, which
the floor allows, and those that an overwriting replaces; a member that is removed hosts nothing.
-/

namespace ReplicaCluster

theorem Settings.floor_pos (settings : Settings) : 0 < settings.floor :=
  lt_of_lt_of_le Nat.zero_lt_one (le_max_right _ _)

namespace Operation

/-- The operation gives the partition new hosts. -/
def Overwrites (op : Operation) (p : PartitionId) : Prop :=
  ∃ hosts, op.action = .overwriteHosts p hosts

end Operation

/-- A member on its way out of the cluster hosts nothing. -/
def Topology.LeaversEmpty (t : Topology) : Prop :=
  ∀ id, t.status? id = some .leaving → ∀ p, t.replica? id p = none

theorem Topology.LeaversEmpty.congr {t t' : Topology} (h : t.LeaversEmpty)
    (hmembers : t.members = t'.members) : t'.LeaversEmpty := by
  intro id hleaving p
  rw [← replica?_congr hmembers]
  rw [← status?_congr hmembers] at hleaving
  exact h id hleaving p

namespace Ready

variable {settings : Settings} {t : Topology} {op : Operation} {prepared : Prepared}
  {id : MemberId} {q : PartitionId}

open ReplicaCluster.Topology

/-! ## Hosts of a partition -/

theorem isSome_inProgress (ready : Ready settings t op prepared) (h : (t.replica? id q).isSome) :
    ((prepared.inProgress.apply op.member t).replica? id q).isSome := by
  rw [ready.replica?_inProgress]
  cases ready with
  | joinPartition active filling others =>
      simp only [Operation.marks]
      split
      · rfl
      · exact h
  | leavePartition active hosted kept =>
      simp only [Operation.marks]
      split
      · simpa using h
      · exact h
  | _ => exact h

theorem replicaCount_inProgress (ready : Ready settings t op prepared) (q : PartitionId) :
    t.replicaCount q ≤ (prepared.inProgress.apply op.member t).replicaCount q :=
  replicaCount_mono fun _ h => ready.isSome_inProgress h

/-- Whoever joins a partition finds another host there. -/
theorem hosted_of_inProgress (ready : Ready settings t op prepared)
    (h : ((prepared.inProgress.apply op.member t).replica? id q).isSome) :
    ∃ other, (t.replica? other q).isSome := by
  rw [ready.replica?_inProgress] at h
  cases ready with
  | @joinPartition m p priority active filling others =>
      by_cases htarget : m = id ∧ p = q
      · -- The check has found others to copy from.
        rcases htarget with ⟨rfl, rfl⟩
        by_contra halone
        refine others (Std.ExtTreeMap.eq_empty_iff_forall_not_mem.2 ?_)
        intro other hother
        have hmem := (Std.ExtTreeMap.mem_erase.1 hother).2
        rw [Std.ExtTreeMap.mem_iff_isSome_getElem?, getElem?_priorities] at hmem
        exact halone ⟨other, by simpa using hmem⟩
      · exact ⟨id, by simpa [Operation.marks, htarget] using h⟩
  | @leavePartition m p active hosted kept =>
      by_cases htarget : m = id ∧ p = q
      · rcases htarget with ⟨rfl, rfl⟩
        exact ⟨m, hosted⟩
      · exact ⟨id, by simpa [Operation.marks, htarget] using h⟩
  | _ => exact ⟨id, h⟩

theorem isSome_confirmed (ready : Ready settings t op prepared) (h : (t.replica? id q).isSome)
    (stays : op ≠ ⟨id, .leavePartition q⟩) (kept : ¬ op.Overwrites q) :
    ((prepared.confirmed.apply op.member t).replica? id q).isSome := by
  rw [ready.replica?_confirmed]
  cases ready with
  | @leavePartition m p active hosted kept =>
      have htarget : ¬ (m = id ∧ p = q) := by
        rintro ⟨rfl, rfl⟩
        exact stays rfl
      simpa [Operation.confirms, htarget] using h
  | @overwriteHosts m p hosts coordinator nonempty nodup known =>
      have hother : p ≠ q := by
        rintro rfl
        exact kept ⟨hosts, rfl⟩
      simpa [Operation.confirms, hother] using h
  | joinCluster free => exact h
  | leaveCluster known settled empty => exact h
  | _ =>
      -- What is left changes a replica in its place.
      simp only [Operation.confirms]
      split
      · simpa using h
      · exact h

/-- Confirming an operation leaves a partition at or above the floor, or all that it has below. -/
theorem replicaCount_confirmed (ready : Ready settings t op prepared) (kept : ¬ op.Overwrites q) :
    min (t.replicaCount q) settings.floor ≤
      (prepared.confirmed.apply op.member t).replicaCount q := by
  by_cases hleaves : op.action = .leavePartition q
  · -- The check has found the floor below what remains once the member is gone.
    have hothers : t.replicaCount q - 1 ≤
        (prepared.confirmed.apply op.member t).replicaCount q := by
      refine replicaCount_pred_le op.member ?_
      intro id hid h
      refine ready.isSome_confirmed h ?_ kept
      rintro rfl
      exact hid rfl
    cases ready with
    | leavePartition active hosted floor =>
        cases hleaves
        calc min (t.replicaCount q) settings.floor
          _ ≤ settings.floor := min_le_right _ _
          _ ≤ t.replicaCount q - 1 := floor
          _ ≤ _ := hothers
    | _ => cases hleaves
  · calc min (t.replicaCount q) settings.floor
      _ ≤ t.replicaCount q := min_le_left _ _
      _ ≤ (prepared.confirmed.apply op.member t).replicaCount q := by
        refine replicaCount_mono ?_
        intro id h
        refine ready.isSome_confirmed h ?_ kept
        rintro rfl
        exact hleaves rfl

theorem hosted_of_confirmed (ready : Ready settings t op prepared) (kept : ¬ op.Overwrites q)
    (h : ((prepared.confirmed.apply op.member t).replica? id q).isSome) :
    (t.replica? id q).isSome := by
  by_contra habsent
  have hnone : t.replica? id q = none := by simpa using habsent
  rw [ready.replica?_confirmed, hnone] at h
  cases ready with
  | @overwriteHosts m p hosts coordinator nonempty nodup known =>
      have hother : p ≠ q := by
        rintro rfl
        exact kept ⟨hosts, rfl⟩
      simp [Operation.confirms, hother] at h
  | _ => simp [Operation.confirms] at h

theorem hosted_confirmed (ready : Ready settings t op prepared) (h : 0 < t.replicaCount q) :
    0 < (prepared.confirmed.apply op.member t).replicaCount q := by
  by_cases hoverwrites : op.Overwrites q
  · rcases hoverwrites with ⟨hosts, haction⟩
    rw [replicaCount_pos_iff]
    cases ready with
    | @overwriteHosts m p hosts' coordinator nonempty nodup known =>
        -- An overwriting names at least one new host.
        cases haction
        rcases List.exists_mem_of_ne_nil hosts nonempty with ⟨id, hid⟩
        have hready := Ready.overwriteHosts (p := q) coordinator nonempty nodup known
        refine ⟨id, ?_⟩
        rw [hready.replica?_confirmed]
        simpa [Operation.confirms] using Priorities.isSome_descending.2 hid
    | _ => cases haction
  · exact (lt_min h settings.floor_pos).trans_le (ready.replicaCount_confirmed hoverwrites)

/-! ## Members that leave -/

theorem leaversEmpty_inProgress (ready : Ready settings t op prepared) (h : t.LeaversEmpty) :
    (prepared.inProgress.apply op.member t).LeaversEmpty := by
  intro id hleaving p
  rw [ready.status?_inProgress] at hleaving
  rw [ready.replica?_inProgress]
  cases ready with
  | @joinCluster m free =>
      by_cases hid : m = id
      · simp [Operation.marksStatus, hid] at hleaving
      · exact h id (by simpa [Operation.marksStatus, hid] using hleaving) p
  | @leaveCluster m s known settled empty =>
      by_cases hid : m = id
      · subst hid
        exact empty p
      · exact h id (by simpa [Operation.marksStatus, hid] using hleaving) p
  | @joinPartition m q priority active filling others =>
      -- Only active members join a partition, so `m` is not the one that leaves.
      have hid : m ≠ id := by
        rintro rfl
        simp [Operation.marksStatus, active] at hleaving
      simpa [Operation.marks, hid] using h id hleaving p
  | @leavePartition m q active hosted kept =>
      have hid : m ≠ id := by
        rintro rfl
        simp [Operation.marksStatus, active] at hleaving
      simpa [Operation.marks, hid] using h id hleaving p
  | _ => exact h id hleaving p

theorem leaversEmpty_confirmed (ready : Ready settings t op prepared) (h : t.LeaversEmpty) :
    (prepared.confirmed.apply op.member t).LeaversEmpty := by
  intro id hleaving p
  rw [ready.status?_confirmed] at hleaving
  rw [ready.replica?_confirmed]
  cases ready with
  | @joinCluster m free =>
      by_cases hid : m = id
      · simp [Operation.confirmsStatus, hid] at hleaving
      · exact h id (by simpa [Operation.confirmsStatus, hid] using hleaving) p
  | @leaveCluster m s known settled empty =>
      by_cases hid : m = id
      · simp [Operation.confirmsStatus, hid] at hleaving
      · exact h id (by simpa [Operation.confirmsStatus, hid] using hleaving) p
  | @overwriteHosts m q hosts coordinator nonempty nodup known =>
      -- The new hosts have been checked not to leave.
      have hnone := h id hleaving p
      by_cases hid : id ∈ hosts
      · rcases known id hid with ⟨s, hs, hstays⟩
        have hs' : s = .leaving := by simpa [Operation.confirmsStatus, hs] using hleaving
        exact absurd hs' hstays
      · have habsent : (Priorities.descending hosts)[id]? = none := by
          rw [← Option.not_isSome_iff_eq_none, Priorities.isSome_descending]
          exact hid
        simp [Operation.confirms, habsent, hnone]
  | _ =>
      have hnone := h id hleaving p
      simp [Operation.confirms, hnone]

theorem empty_of_removed (ready : Ready settings t op prepared) (known : (t.status? id).isSome)
    (removed : (prepared.confirmed.apply op.member t).status? id = none) (q : PartitionId) :
    t.replica? id q = none := by
  rw [ready.status?_confirmed] at removed
  cases ready with
  | @joinCluster m free =>
      have hnone : t.status? id = none := by
        by_cases hid : m = id
        · simpa [Operation.confirmsStatus, hid] using removed
        · simpa [Operation.confirmsStatus, hid] using removed
      simp [hnone] at known
  | @leaveCluster m s hknown settled empty =>
      by_cases hid : m = id
      · subst hid
        exact empty q
      · have hnone : t.status? id = none := by
          simpa [Operation.confirmsStatus, hid] using removed
        simp [hnone] at known
  | _ =>
      have hnone : t.status? id = none := removed
      simp [hnone] at known

theorem isSome_status?_inProgress (ready : Ready settings t op prepared)
    (known : (t.status? id).isSome) :
    ((prepared.inProgress.apply op.member t).status? id).isSome := by
  rw [ready.status?_inProgress]
  cases ready with
  | joinCluster free =>
      simp only [Operation.marksStatus]
      split
      · rfl
      · exact known
  | leaveCluster hknown settled empty =>
      simp only [Operation.marksStatus]
      split
      · rfl
      · exact known
  | _ => exact known

end Ready

end ReplicaCluster
