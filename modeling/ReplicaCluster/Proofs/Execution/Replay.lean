import ReplicaCluster.Proofs.Execution.Floor
import ReplicaCluster.Proofs.Execution.Undisturbed
import ReplicaCluster.Proofs.Topology.Locality
import ReplicaCluster.Proofs.Topology.Profile

/-!
# Replaying operations on the members alone

Whether an operation is ready and what its two writes do to the members depends on the profile of
the topology only, not on its ledger or its versions.  `Replay` carries a list of operations out in
that sense.  It succeeds exactly when carrying out a pending change with these operations does
(`Replay.of_foldlM`, `Replay.foldlM`).

Marking the first operation once more changes nothing for a replay (`Replay.marked`).

What the ledger and the versions come to matters for members that no operation is about: they stay
exactly as they are (`Topology.member?_foldlM_carryOut`).
-/

namespace ReplicaCluster

/-! ## The effect of both writes -/

namespace Operation

variable (op : Operation) (id : MemberId)

theorem marks_marks (p : PartitionId) (r : Option Replica) :
    op.marks id p (op.marks id p r) = op.marks id p r := by
  rcases op with ⟨m, action⟩
  cases action with
  | joinPartition q priority =>
      simp only [marks]
      split <;> rfl
  | leavePartition q =>
      simp only [marks]
      split
      · cases r <;> rfl
      · rfl
  | _ => rfl

theorem marksStatus_marksStatus (s : Option Status) :
    op.marksStatus id (op.marksStatus id s) = op.marksStatus id s := by
  rcases op with ⟨m, action⟩
  cases action with
  | joinCluster =>
      simp only [marksStatus]
      split <;> rfl
  | leaveCluster =>
      simp only [marksStatus]
      split <;> rfl
  | _ => rfl

end Operation

/-- The topology after both writes of an operation on `member`. -/
def Prepared.perform (prepared : Prepared) (member : MemberId) (t : Topology) : Topology :=
  prepared.confirmed.apply member (prepared.inProgress.apply member t)

namespace Ready

variable {settings : Settings} {t t' : Topology} {op : Operation} {prepared prepared' : Prepared}

open ReplicaCluster.Topology

/-- What the check hands out is determined by the operation and the topology. -/
theorem unique (ready : Ready settings t op prepared) (ready' : Ready settings t op prepared') :
    prepared = prepared' := by
  have hfirst := Operation.prepare_of_ready ready
  have hsecond := Operation.prepare_of_ready ready'
  exact Except.ok.inj (hfirst.symm.trans hsecond)

theorem status?_perform (ready : Ready settings t op prepared) (id : MemberId) :
    (prepared.perform op.member t).status? id =
      op.confirmsStatus id (op.marksStatus id (t.status? id)) := by
  simpa only [Prepared.perform, ready.status?_inProgress] using ready.resume.status?_confirmed id

theorem replica?_perform (ready : Ready settings t op prepared) (id : MemberId)
    (p : PartitionId) :
    (prepared.perform op.member t).replica? id p =
      op.confirms id p (op.marks id p (t.replica? id p)) := by
  simpa only [Prepared.perform, ready.replica?_inProgress] using
    ready.resume.replica?_confirmed id p

/-- The check looks at the profile only. -/
theorem alike (ready : Ready settings t op prepared) (h : t.Alike t') :
    Ready settings t' op prepared := by
  cases ready with
  | joinCluster free => exact .joinCluster fun s hs => free s (by simpa only [h.status?] using hs)
  | leaveCluster known settled empty =>
      exact .leaveCluster (by simpa only [h.status?] using known) settled
        fun p => by simpa only [h.replica?] using empty p
  | joinPartition active filling others =>
      simp only [h.priorities, h.status?, h.replica?] at active filling others ⊢
      exact .joinPartition active filling others
  | leavePartition active hosted kept =>
      simp only [h.status?, h.replica?, h.replicaCount] at active hosted kept
      exact .leavePartition active hosted kept
  | setPriority active hosted serving =>
      simp only [h.status?, h.replica?] at active hosted
      exact .setPriority active hosted serving
  | overwriteHosts coordinator nonempty nodup known =>
      simp only [h.status?] at known
      exact .overwriteHosts coordinator nonempty nodup known
  | forceReconfigure hosted =>
      simp only [h.replicas, h.replica?] at hosted ⊢
      exact .forceReconfigure hosted

theorem alike_perform (ready : Ready settings t op prepared) (h : t.Alike t') :
    (prepared.perform op.member t).Alike (prepared.perform op.member t') := by
  have ready' := ready.alike h
  refine ⟨fun id => ?_, fun id p => ?_⟩
  · rw [ready.status?_perform, ready'.status?_perform, h.status?]
  · rw [ready.replica?_perform, ready'.replica?_perform, h.replica?]

/-- An operation that was taken up again ends as one that was not. -/
theorem perform_inProgress (ready : Ready settings t op prepared) :
    (prepared.perform op.member t).Alike
      (prepared.perform op.member (prepared.inProgress.apply op.member t)) := by
  refine ⟨fun id => ?_, fun id p => ?_⟩
  · rw [ready.status?_perform, ready.resume.status?_perform, ready.status?_inProgress,
      op.marksStatus_marksStatus]
  · rw [ready.replica?_perform, ready.resume.replica?_perform, ready.replica?_inProgress,
      op.marks_marks]

/-- An operation that overwrites no hosts keeps the floor, if the partition is above it. -/
theorem replicaCount_perform {p : PartitionId} (ready : Ready settings t op prepared)
    (kept : ¬ op.Overwrites p) :
    min (t.replicaCount p) settings.floor ≤ (prepared.perform op.member t).replicaCount p :=
  calc min (t.replicaCount p) settings.floor
    _ ≤ min ((prepared.inProgress.apply op.member t).replicaCount p) settings.floor :=
      min_le_min_right _ (ready.replicaCount_inProgress p)
    _ ≤ (prepared.perform op.member t).replicaCount p := ready.resume.replicaCount_confirmed kept

end Ready

/-! ## Replays -/

/-- Each operation in turn is ready and is carried out.  The topology at the end is determined up
to its profile. -/
inductive Replay (settings : Settings) : Topology → List Operation → Topology → Prop
  | nil {t final : Topology} (alike : t.Alike final) : Replay settings t [] final
  | cons {t final : Topology} {op : Operation} {prepared : Prepared} {rest : List Operation}
      (ready : Ready settings t op prepared)
      (tail : Replay settings (prepared.perform op.member t) rest final) :
      Replay settings t (op :: rest) final

namespace Replay

open ReplicaCluster.Topology

variable {settings : Settings} {t t' final : Topology} {op : Operation}
  {prepared : Prepared} {ops ops' rest done : List Operation} {now : Int} {id : Nat}

theorem alike_left (h : Replay settings t ops final) :
    ∀ {t' : Topology}, t.Alike t' → Replay settings t' ops final := by
  induction h with
  | nil alike =>
      intro t' h
      exact .nil (h.symm.trans alike)
  | cons ready tail ih =>
      intro t' h
      exact .cons (ready.alike h) (ih (ready.alike_perform h))

theorem append (h : Replay settings t ops t') :
    Replay settings t' ops' final → Replay settings t (ops ++ ops') final := by
  induction h with
  | nil alike =>
      intro h'
      exact h'.alike_left alike.symm
  | cons ready tail ih =>
      intro h'
      exact .cons ready (ih h')

theorem tail (h : Replay settings t (op :: rest) final) (ready : Ready settings t op prepared) :
    Replay settings (prepared.perform op.member t) rest final := by
  cases h with
  | cons ready' tail =>
      rw [ready.unique ready']
      exact tail

/-- The first operation may be marked beforehand. -/
theorem marked (h : Replay settings t (op :: rest) final) (ready : Ready settings t op prepared) :
    Replay settings (prepared.inProgress.apply op.member t) (op :: rest) final :=
  .cons ready.resume ((h.tail ready).alike_left ready.perform_inProgress)

theorem alike_of_nil (h : Replay settings t [] final) : t.Alike final := by
  cases h with
  | nil alike => exact alike

/-- The effects on a status follow one after the other. -/
theorem status?_eq_foldl (h : Replay settings t ops final) (id : MemberId) :
    final.status? id = ops.foldl (fun s op => op.confirmsStatus id (op.marksStatus id s))
      (t.status? id) := by
  induction h with
  | nil alike => exact (alike.status? id).symm
  | cons ready tail ih => rw [ih, ready.status?_perform, List.foldl_cons]

theorem replica?_eq_foldl (h : Replay settings t ops final) (id : MemberId) (p : PartitionId) :
    final.replica? id p = ops.foldl (fun r op => op.confirms id p (op.marks id p r))
      (t.replica? id p) := by
  induction h with
  | nil alike => exact (alike.replica? id p).symm
  | cons ready tail ih => rw [ih, ready.replica?_perform, List.foldl_cons]

/-! ## Replays and pending changes -/

/-- A change is replayed as far as it is carried out. -/
theorem of_foldlM (hawaits : t.Awaits now id done (ops ++ rest))
    (h : ops.foldlM (carryOut settings now) t = .ok final) : Replay settings t ops final := by
  induction ops generalizing t done with
  | nil =>
      have hfinal : t = final := by simpa [pure, Except.pure] using h
      exact .nil (hfinal ▸ .refl t)
  | cons op later ih =>
      rw [List.foldlM_cons, bind_eq_ok_iff] at h
      rcases h with ⟨t', hcarry, h⟩
      have htail := ih (hawaits.carryOut hcarry) h
      rcases (carryOut_eq_ok_iff (awaits_cons_iff.1 hawaits)).1 hcarry with
        ⟨prepared, hprepare, rfl⟩
      exact .cons (Operation.ready_of_prepare hprepare)
        (htail.alike_left (.of_members (members_advanced _ _ _)))

/-- A change that can be replayed can be carried out, to the same profile. -/
theorem foldlM (hawaits : t.Awaits now id done ops) (h : Replay settings t ops final) :
    ∃ final', ops.foldlM (carryOut settings now) t = .ok final' ∧ final'.Alike final := by
  induction ops generalizing t done with
  | nil => exact ⟨t, rfl, h.alike_of_nil⟩
  | cons op rest ih =>
      cases h with
      | @cons _ _ _ prepared _ ready tail =>
          let marked := prepared.inProgress.apply op.member t
          let t' := marked.advanced now op.member prepared.confirmed ⟨id, op :: rest, done⟩
          have hcarry : t.carryOut settings now op = .ok t' :=
            carryOut_of_prepare (awaits_cons_iff.1 hawaits) (Operation.prepare_of_ready ready)
          have htail : Replay settings t' rest final :=
            tail.alike_left (.of_members (members_advanced _ _ _).symm)
          rcases ih (hawaits.carryOut hcarry) htail with ⟨final', hfold, halike⟩
          refine ⟨final', ?_, halike⟩
          rw [List.foldlM_cons, hcarry]
          exact hfold

/-! ## Hosts along a replay -/

theorem replicaCount {p : PartitionId} (h : Replay settings t ops final)
    (kept : ∀ op ∈ ops, ¬ op.Overwrites p) :
    min (t.replicaCount p) settings.floor ≤ final.replicaCount p := by
  induction h with
  | nil alike => exact (min_le_left _ _).trans (alike.replicaCount p).le
  | @cons t final op prepared rest ready tail ih =>
      have hkept := List.forall_mem_cons.1 kept
      calc min (t.replicaCount p) settings.floor
        _ ≤ min ((prepared.perform op.member t).replicaCount p) settings.floor :=
          le_min (ready.replicaCount_perform hkept.1) (min_le_right _ _)
        _ ≤ final.replicaCount p := ih hkept.2

end Replay

open ReplicaCluster.Topology

/-! ## Members that no operation is about -/

theorem Ready.updates_single {settings : Settings} {t : Topology} {op : Operation}
    {prepared : Prepared} (ready : Ready settings t op prepared) (kept : ∀ p, ¬ op.Overwrites p)
    (p : PartitionId) (priorities : Priorities) :
    prepared.inProgress ≠ .overwriteReplicas p priorities ∧
      prepared.confirmed ≠ .overwriteReplicas p priorities := by
  cases ready with
  | overwriteHosts coordinator nonempty nodup known => exact absurd ⟨_, rfl⟩ (kept _)
  | _ => simp

namespace Topology

variable {settings : Settings} {now : Int} {t t' : Topology} {op : Operation}
  {operations : List Operation} {id : MemberId}

theorem member?_carryOut (h : t.carryOut settings now op = .ok t') (other : op.member ≠ id)
    (kept : ∀ p, ¬ op.Overwrites p) : t'.member? id = t.member? id := by
  cases hprepare : op.prepare settings t with
  | error e => simp [carryOut, hprepare, bind, Except.bind] at h
  | ok prepared =>
      have hsingle := (Operation.ready_of_prepare hprepare).updates_single kept
      calc t'.member? id
        _ = (prepared.confirmed.apply op.member
            (prepared.inProgress.apply op.member t)).member? id :=
          member?_congr (members_of_carryOut hprepare h)
        _ = (prepared.inProgress.apply op.member t).member? id :=
          Update.member?_apply_of_ne other fun p priorities => (hsingle p priorities).2
        _ = t.member? id :=
          Update.member?_apply_of_ne other fun p priorities => (hsingle p priorities).1

/-- A member that none of the operations is about is in the end as it was, its version included. -/
theorem member?_foldlM_carryOut
    (others : ∀ op ∈ operations, op.member ≠ id ∧ ∀ p, ¬ op.Overwrites p)
    (h : operations.foldlM (carryOut settings now) t = .ok t') : t'.member? id = t.member? id := by
  refine invariant_foldlM (P := fun u => u.member? id = t.member? id) operations ?_ rfl h
  intro u op hop u' hu hcarry
  rcases others op hop with ⟨hother, hkept⟩
  rw [member?_carryOut hcarry hother hkept, hu]

end Topology

end ReplicaCluster
