import ReplicaCluster.Proofs.Execution.Readiness

/-!
# What the two writes of an operation do

A ready operation is first marked as under way and later confirmed.  `Operation.marks` and
`Operation.confirms` say what these writes do to each replica; `Operation.marksStatus` and
`Operation.confirmsStatus` say what they do to the status of each member.

A marked operation stays ready (`Ready.resume`), so that an execution that was interrupted after
its first write can be taken up again.
-/

namespace ReplicaCluster

namespace Operation

/-- What becomes of the replica of `q` on `id` when the operation is marked as under way. -/
def marks (op : Operation) (id : MemberId) (q : PartitionId) (r : Option Replica) :
    Option Replica :=
  match op.action with
  | .joinPartition p priority =>
      if op.member = id ∧ p = q then some (.joining priority) else r
  | .leavePartition p =>
      if op.member = id ∧ p = q then r.map fun r => { r with status := .leaving } else r
  | _ => r

/-- What becomes of the replica of `q` on `id` when the operation is confirmed. -/
def confirms (op : Operation) (id : MemberId) (q : PartitionId) (r : Option Replica) :
    Option Replica :=
  match op.action with
  | .joinPartition p _ | .forceReconfigure p _ =>
      if op.member = id ∧ p = q then r.map fun r => { r with status := .active } else r
  | .leavePartition p => if op.member = id ∧ p = q then none else r
  | .setPriority p priority =>
      if op.member = id ∧ p = q then r.map fun r => { r with priority } else r
  | .overwriteHosts p hosts =>
      if p = q then (Priorities.descending hosts)[id]?.map Replica.active else r
  | _ => r

def marksStatus (op : Operation) (id : MemberId) (s : Option Status) : Option Status :=
  match op.action with
  | .joinCluster => if op.member = id then some .joining else s
  | .leaveCluster => if op.member = id then some .leaving else s
  | _ => s

def confirmsStatus (op : Operation) (id : MemberId) (s : Option Status) : Option Status :=
  match op.action with
  | .joinCluster => if op.member = id then s.map fun _ => .active else s
  | .leaveCluster => if op.member = id then none else s
  | _ => s

end Operation

/-! ## The hosts of an overwriting -/

theorem Priorities.isSome_descending {hosts : List MemberId} {id : MemberId} :
    ((Priorities.descending hosts)[id]?).isSome ↔ id ∈ hosts := by
  rw [← Std.ExtTreeMap.mem_iff_isSome_getElem?, Priorities.descending, Std.ExtTreeMap.mem_ofList]
  simp [List.map_map, Function.comp_def, List.zipIdx_map_fst]

/-! ## Revisions of a member that the cluster has -/

namespace Topology

variable {t : Topology} {m id : MemberId} {p q : PartitionId} {s : Status}

theorem status?_modifyMember_of_keeps {f : Member → Member} (hf : ∀ x, (f x).status = x.status) :
    (t.modifyMember m f).status? id = t.status? id := by
  rw [status?_modifyMember]
  split
  · next h => subst h; simp [status?, hf]
  · rfl

theorem replica?_modifyMember_of_known {f : Member → Member}
    {g : Option Replica → Option Replica} (hknown : (t.status? m).isSome)
    (hf : ∀ x q, (f x).replica? q = if p = q then g (x.replica? q) else x.replica? q) :
    (t.modifyMember m f).replica? id q =
      if m = id ∧ p = q then g (t.replica? id q) else t.replica? id q := by
  rw [replica?_modifyMember]
  by_cases hid : m = id
  · subst hid
    cases hm : t.member? m with
    | none => simp [status?, hm] at hknown
    | some x =>
        by_cases hq : p = q
        · subst hq; simp [replica?, hm, hf]
        · simp [replica?, hm, hf, hq]
  · simp [hid]

theorem replica?_modifyReplica_of_known (f : Replica → Replica) (hknown : (t.status? m).isSome) :
    (t.modifyMember m (·.modifyReplica p f)).replica? id q =
      if m = id ∧ p = q then (t.replica? id q).map f else t.replica? id q :=
  replica?_modifyMember_of_known (g := fun r => r.map f) hknown fun x q => by simp

end Topology

namespace Ready

variable {settings : Settings} {t : Topology} {op : Operation} {prepared : Prepared}

open ReplicaCluster.Topology

/-! ## Marking -/

theorem status?_inProgress (ready : Ready settings t op prepared) (id : MemberId) :
    (prepared.inProgress.apply op.member t).status? id = op.marksStatus id (t.status? id) := by
  cases ready with
  | @joinCluster m free =>
      simp only [Update.apply, status?_updateMember, Operation.marksStatus]
      cases t.member? m <;> simp [Member.joining]
  | @leaveCluster m s known settled empty =>
      rcases Option.map_eq_some_iff.1 known with ⟨x, hm, -⟩
      simp [Update.apply, status?_modifyMember, Operation.marksStatus, hm]
  | joinPartition active filling others =>
      exact status?_modifyMember_of_keeps fun x => by simp
  | leavePartition active hosted kept =>
      exact status?_modifyMember_of_keeps fun x => by simp
  | setPriority active hosted serving => rfl
  | overwriteHosts coordinator nonempty nodup known => rfl
  | forceReconfigure hosted => rfl

theorem replica?_inProgress (ready : Ready settings t op prepared) (id : MemberId)
    (q : PartitionId) :
    (prepared.inProgress.apply op.member t).replica? id q = op.marks id q (t.replica? id q) := by
  cases ready with
  | @joinCluster m free =>
      simp only [Update.apply, replica?_updateMember, Operation.marks]
      split
      · next h =>
          subst h
          cases hm : t.member? m with
          | none => simp [replica?, hm, Member.joining, Member.replica?]
          | some x => simp [replica?, hm]
      · rfl
  | @leaveCluster m s known settled empty =>
      simp only [Update.apply, replica?_modifyMember, Operation.marks]
      split
      · next h => subst h; simp [replica?]
      · rfl
  | @joinPartition m p priority active filling others =>
      have hknown : (t.status? m).isSome := by simp [active]
      exact replica?_modifyMember_of_known (p := p) (f := (·.withReplica p (.joining priority)))
        (g := fun _ => some (.joining priority)) hknown fun x q => by simp
  | @leavePartition m p active hosted kept =>
      have hknown : (t.status? m).isSome := by simp [active]
      exact replica?_modifyReplica_of_known (fun r => { r with status := .leaving }) hknown
  | setPriority active hosted serving => rfl
  | overwriteHosts coordinator nonempty nodup known => rfl
  | forceReconfigure hosted => rfl

/-! ## Confirming -/

theorem status?_confirmed (ready : Ready settings t op prepared) (id : MemberId) :
    (prepared.confirmed.apply op.member t).status? id = op.confirmsStatus id (t.status? id) := by
  cases ready with
  | @joinCluster m free =>
      simp only [Update.apply, status?_modifyMember, Operation.confirmsStatus]
      split
      · next h => subst h; simp [status?, Function.comp_def]
      · rfl
  | @leaveCluster m s known settled empty =>
      simp [Update.apply, removeMember, status?_updateMember, Operation.confirmsStatus]
  | overwriteHosts coordinator nonempty nodup known =>
      exact status?_overwriteReplicas _
  | joinPartition active filling others =>
      exact status?_modifyMember_of_keeps fun x => by simp
  | leavePartition active hosted kept =>
      exact status?_modifyMember_of_keeps fun x => by simp
  | setPriority active hosted serving =>
      exact status?_modifyMember_of_keeps fun x => by simp
  | forceReconfigure hosted =>
      exact status?_modifyMember_of_keeps fun x => by simp

theorem replica?_confirmed (ready : Ready settings t op prepared) (id : MemberId)
    (q : PartitionId) :
    (prepared.confirmed.apply op.member t).replica? id q =
      op.confirms id q (t.replica? id q) := by
  cases ready with
  | @joinCluster m free =>
      simp only [Update.apply, replica?_modifyMember, Operation.confirms]
      split
      · next h => subst h; simp [replica?]
      · rfl
  | @leaveCluster m s known settled empty =>
      simp only [Update.apply, removeMember, replica?_updateMember, Operation.confirms]
      split
      · next h => subst h; simp [empty]
      · rfl
  | @joinPartition m p priority active filling others =>
      have hknown : (t.status? m).isSome := by simp [active]
      exact replica?_modifyReplica_of_known (fun r => { r with status := .active }) hknown
  | @leavePartition m p active hosted kept =>
      have hknown : (t.status? m).isSome := by simp [active]
      exact replica?_modifyMember_of_known (p := p) (f := (·.withoutReplica p)) (g := fun _ => none)
        hknown fun x q => by simp
  | @setPriority m p priority r active hosted serving =>
      have hknown : (t.status? m).isSome := by simp [active]
      exact replica?_modifyReplica_of_known (fun r => { r with priority }) hknown
  | @overwriteHosts m p hosts coordinator nonempty nodup known =>
      simp only [Update.apply, replica?_overwriteReplicas, Operation.confirms]
      cases hm : t.member? id with
      | some x => simp
      | none =>
          -- The new hosts are known, so a member that is not known is none of them.
          have habsent : id ∉ hosts := by
            intro hid
            rcases known id hid with ⟨s, hs, -⟩
            simp [status?, hm] at hs
          have hnone : (Priorities.descending hosts)[id]? = none := by
            rw [← Option.not_isSome_iff_eq_none, Priorities.isSome_descending]
            exact habsent
          simp [hnone]
  | @forceReconfigure m p bootstrap hosted =>
      have hknown : (t.status? m).isSome := by
        by_contra habsent
        have hnone := replica?_eq_none_of_absent (p := p) (Option.not_isSome_iff_eq_none.1 habsent)
        simp [hnone] at hosted
      exact replica?_modifyReplica_of_known (fun r => { r with status := .active }) hknown

/-! ## Resuming -/

/-- An operation that is under way passes its check again, with the same outcome. -/
theorem resume (ready : Ready settings t op prepared) :
    Ready settings (prepared.inProgress.apply op.member t) op prepared := by
  have hstatus := ready.status?_inProgress
  have hreplica := ready.replica?_inProgress
  cases ready with
  | joinCluster free =>
      refine .joinCluster fun s hs => ?_
      simpa [hstatus, Operation.marksStatus, eq_comm] using hs
  | leaveCluster known settled empty =>
      refine .leaveCluster (s := .leaving) ?_ (by simp) fun p => ?_
      · simp [hstatus, Operation.marksStatus]
      · simp [hreplica, Operation.marks, empty]
  | @joinPartition m p priority active filling others =>
      -- The new replica is the member's own, so the other hosts are those of before.
      have hothers :
          (((Update.replicaJoining p priority).apply m t).priorities p).erase m =
            (t.priorities p).erase m := by
        refine Std.ExtTreeMap.ext_getElem? fun id => ?_
        by_cases hid : m = id
        · subst hid; simp
        · simp [Std.ExtTreeMap.getElem?_erase, hid, getElem?_priorities, hreplica, Operation.marks]
      have hactive : ((Update.replicaJoining p priority).apply m t).status? m = some .active := by
        simp [hstatus, Operation.marksStatus, active]
      have hfilling : ∀ r, ((Update.replicaJoining p priority).apply m t).replica? m p = some r →
          r.status = .joining := by
        intro r hr
        have hr' : Replica.joining priority = r := by
          simpa [hreplica, Operation.marks] using hr
        rw [← hr']
        rfl
      rw [← hothers]
      exact .joinPartition hactive hfilling (by rw [hothers]; exact others)
  | @leavePartition m p active hosted kept =>
      -- A replica that leaves still counts, so the floor is met as before.
      have hcount : ((Update.replicaLeaving p).apply m t).replicaCount p = t.replicaCount p := by
        refine replicaCount_congr fun id => ?_
        rw [hreplica]
        simp only [Operation.marks]
        split <;> simp
      refine .leavePartition ?_ ?_ (by rw [hcount]; exact kept)
      · simp [hstatus, Operation.marksStatus, active]
      · simpa [hreplica, Operation.marks] using hosted
  | setPriority active hosted serving => exact .setPriority active hosted serving
  | overwriteHosts coordinator nonempty nodup known =>
      exact .overwriteHosts coordinator nonempty nodup known
  | forceReconfigure hosted => exact .forceReconfigure hosted

end Ready

end ReplicaCluster
