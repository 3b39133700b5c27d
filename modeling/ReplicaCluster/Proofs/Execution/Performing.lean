import ReplicaCluster.Proofs.Execution.Replay

/-!
# Performing operations without their checks

A plan is a list of operations, and what it means for the members can be told without running it:
each operation in turn has its two writes applied, whether or not it would pass its check
(`Topology.performAll`).  For operations that do pass, this is what their execution comes to
(`Ready.perform_eq`).

`Topology.Throughout` states a property of a plan at every stage of it.
-/

namespace ReplicaCluster

/-! ## The two writes of an operation -/

namespace Action

/-- The update that marks an action as under way. -/
def inProgress : Action → Update
  | .joinCluster => .memberJoining
  | .leaveCluster => .memberLeaving
  | .joinPartition p priority => .replicaJoining p priority
  | .leavePartition p => .replicaLeaving p
  | .setPriority .. | .overwriteHosts .. | .forceReconfigure .. => .unchanged

/-- The update that confirms an action. -/
def confirmed : Action → Update
  | .joinCluster => .memberActive
  | .leaveCluster => .memberRemoved
  | .joinPartition p _ | .forceReconfigure p _ => .replicaActive p
  | .leavePartition p => .replicaRemoved p
  | .setPriority p priority => .replicaPriority p priority
  | .overwriteHosts p hosts => .overwriteReplicas p (Priorities.descending hosts)

end Action

/-- The topology after both writes of an operation. -/
def Operation.perform (op : Operation) (t : Topology) : Topology :=
  op.action.confirmed.apply op.member (op.action.inProgress.apply op.member t)

theorem Ready.perform_eq {settings : Settings} {t : Topology} {op : Operation}
    {prepared : Prepared} (ready : Ready settings t op prepared) :
    prepared.perform op.member t = op.perform t := by
  cases ready <;> rfl

namespace Topology

def performAll (t : Topology) (ops : List Operation) : Topology :=
  ops.foldl (fun t op => op.perform t) t

variable {t : Topology} {op : Operation} {ops ops' : List Operation} {m id : MemberId}
  {p q : PartitionId} {priority : Priority}

@[simp] theorem performAll_nil : t.performAll [] = t := rfl

@[simp] theorem performAll_cons : t.performAll (op :: ops) = (op.perform t).performAll ops := rfl

theorem performAll_append : t.performAll (ops ++ ops') = (t.performAll ops).performAll ops' :=
  List.foldl_append

theorem performAll_concat : t.performAll (ops ++ [op]) = op.perform (t.performAll ops) :=
  performAll_append

/-! ## What a plan goes through -/

/-- The property holds before each operation of the plan, of the topology and what is left to do,
and at the end. -/
def Throughout (property : Topology → List Operation → Prop) : Topology → List Operation → Prop
  | t, [] => property t []
  | t, op :: rest => property t (op :: rest) ∧ Throughout property (op.perform t) rest

theorem Throughout.at_stage {property : Topology → List Operation → Prop} {rest : List Operation}
    (done : List Operation) :
    ∀ {t : Topology}, t.Throughout property (done ++ rest) → property (t.performAll done) rest := by
  -- By induction on what is done, from any topology, for each operation leads on to another one.
  induction done with
  | nil =>
      intro t h
      cases rest with
      | nil => exact h
      | cons op rest => exact h.1
  | cons op done ih =>
      intro t h
      exact ih h.2

/-! ## Joins of a partition -/

/-- Where a revision makes no replica out of none, it does nothing to a member that is not
there. -/
theorem replica?_modifyMember_of_absent {f : Member → Member}
    {g : Option Replica → Option Replica} (absent : g none = none)
    (hf : ∀ x q, (f x).replica? q = if p = q then g (x.replica? q) else x.replica? q) :
    (t.modifyMember m f).replica? id q =
      if m = id ∧ p = q then g (t.replica? id q) else t.replica? id q := by
  cases hm : t.member? m with
  | some x => exact replica?_modifyMember_of_known (by simp [status?, hm]) hf
  | none =>
      rw [replica?_modifyMember]
      by_cases hid : m = id
      · subst hid
        simp [replica?, hm, absent]
      · simp [hid]

theorem replica?_modifyReplica (f : Replica → Replica) :
    (t.modifyMember m (·.modifyReplica p f)).replica? id q =
      if m = id ∧ p = q then (t.replica? id q).map f else t.replica? id q :=
  replica?_modifyMember_of_absent (g := fun r => r.map f) rfl fun x q => by simp

theorem status?_perform_joinPartition :
    (Operation.perform ⟨m, .joinPartition p priority⟩ t).status? id = t.status? id :=
  calc (Operation.perform ⟨m, .joinPartition p priority⟩ t).status? id
    _ = ((Update.replicaJoining p priority).apply m t).status? id :=
      status?_modifyMember_of_keeps fun x => by simp
    _ = t.status? id := status?_modifyMember_of_keeps fun x => by simp

theorem replica?_perform_joinPartition (known : (t.status? m).isSome) :
    (Operation.perform ⟨m, .joinPartition p priority⟩ t).replica? id q =
      if m = id ∧ p = q then some (.active priority) else t.replica? id q := by
  let marked := (Update.replicaJoining p priority).apply m t
  -- The first write puts the replica there, and the second one finds it.
  have hmarked : marked.replica? id q =
      if m = id ∧ p = q then some (.joining priority) else t.replica? id q :=
    replica?_modifyMember_of_known (p := p) (f := (·.withReplica p (.joining priority)))
      (g := fun _ => some (.joining priority)) known fun x q => by simp
  calc (Operation.perform ⟨m, .joinPartition p priority⟩ t).replica? id q
    _ = if m = id ∧ p = q then (marked.replica? id q).map fun r => { r with status := .active }
        else marked.replica? id q :=
      replica?_modifyReplica fun r => { r with status := .active }
    _ = if m = id ∧ p = q then some (.active priority) else t.replica? id q := by
      rw [hmarked]
      split <;> rfl

/-- A member that did not host the partition adds one replica to it. -/
theorem replicaCount_perform_joinPartition (known : (t.status? m).isSome)
    (free : t.replica? m p = none) :
    (Operation.perform ⟨m, .joinPartition p priority⟩ t).replicaCount q =
      if p = q then t.replicaCount q + 1 else t.replicaCount q := by
  by_cases hq : p = q
  · subst hq
    have hhosts : (Operation.perform ⟨m, .joinPartition p priority⟩ t).hosts p =
        insert m (t.hosts p) := by
      ext id
      rw [Finset.mem_insert, mem_hosts_iff, mem_hosts_iff, replica?_perform_joinPartition known]
      by_cases hid : m = id
      · simp [hid]
      · simp [hid, Ne.symm hid]
    have hnew : m ∉ t.hosts p := by simp [mem_hosts_iff, free]
    simp [replicaCount_eq_card_hosts, hhosts, hnew]
  · rw [if_neg hq]
    refine replicaCount_congr fun id => ?_
    simp [replica?_perform_joinPartition known, hq]

/-! ## Departures from a partition -/

theorem status?_perform_leavePartition :
    (Operation.perform ⟨m, .leavePartition p⟩ t).status? id = t.status? id :=
  calc (Operation.perform ⟨m, .leavePartition p⟩ t).status? id
    _ = ((Update.replicaLeaving p).apply m t).status? id :=
      status?_modifyMember_of_keeps fun x => by simp
    _ = t.status? id := status?_modifyMember_of_keeps fun x => by simp

theorem replica?_perform_leavePartition :
    (Operation.perform ⟨m, .leavePartition p⟩ t).replica? id q =
      if m = id ∧ p = q then none else t.replica? id q := by
  let marked := (Update.replicaLeaving p).apply m t
  have hmarked : marked.replica? id q =
      if m = id ∧ p = q then (t.replica? id q).map fun r => { r with status := .leaving }
      else t.replica? id q :=
    replica?_modifyReplica fun r => { r with status := .leaving }
  calc (Operation.perform ⟨m, .leavePartition p⟩ t).replica? id q
    _ = if m = id ∧ p = q then none else marked.replica? id q :=
      replica?_modifyMember_of_absent (p := p) (f := (·.withoutReplica p)) (g := fun _ => none) rfl
        fun x q => by simp
    _ = if m = id ∧ p = q then none else t.replica? id q := by
      rw [hmarked]
      split <;> rfl

/-- A member that hosted the partition takes one replica from it. -/
theorem replicaCount_perform_leavePartition (hosted : (t.replica? m p).isSome) :
    (Operation.perform ⟨m, .leavePartition p⟩ t).replicaCount q =
      if p = q then t.replicaCount q - 1 else t.replicaCount q := by
  by_cases hq : p = q
  · subst hq
    have hhosts : (Operation.perform ⟨m, .leavePartition p⟩ t).hosts p = (t.hosts p).erase m := by
      ext id
      rw [Finset.mem_erase, mem_hosts_iff, mem_hosts_iff, replica?_perform_leavePartition]
      by_cases hid : m = id
      · simp [hid]
      · simp [hid, Ne.symm hid]
    have hhost : m ∈ t.hosts p := mem_hosts_iff.2 hosted
    simp [replicaCount_eq_card_hosts, hhosts, Finset.card_erase_of_mem hhost]
  · rw [if_neg hq]
    refine replicaCount_congr fun id => ?_
    simp [replica?_perform_leavePartition, hq]

/-! ## Departures from the cluster -/

theorem status?_perform_leaveCluster :
    (Operation.perform ⟨m, .leaveCluster⟩ t).status? id =
      if m = id then none else t.status? id := by
  by_cases hid : m = id
  · simp [Operation.perform, Action.inProgress, Action.confirmed, Update.apply, removeMember,
      status?_updateMember, hid]
  · simp [Operation.perform, Action.inProgress, Action.confirmed, Update.apply, removeMember,
      status?_updateMember, status?_modifyMember, hid]

theorem replica?_perform_leaveCluster :
    (Operation.perform ⟨m, .leaveCluster⟩ t).replica? id q =
      if m = id then none else t.replica? id q := by
  by_cases hid : m = id
  · simp [Operation.perform, Action.inProgress, Action.confirmed, Update.apply, removeMember,
      replica?_updateMember, hid]
  · simp [Operation.perform, Action.inProgress, Action.confirmed, Update.apply, removeMember,
      replica?_updateMember, replica?_modifyMember, hid]

/-- A member that hosts nothing leaves all replicas where they are. -/
theorem replica?_perform_leaveCluster_of_empty (empty : ∀ p, t.replica? m p = none) :
    (Operation.perform ⟨m, .leaveCluster⟩ t).replica? id q = t.replica? id q := by
  rw [replica?_perform_leaveCluster]
  split
  · next hid => rw [← hid, empty]
  · rfl

theorem replicaCount_perform_leaveCluster_of_empty (empty : ∀ p, t.replica? m p = none) :
    (Operation.perform ⟨m, .leaveCluster⟩ t).replicaCount q = t.replicaCount q :=
  replicaCount_congr fun id => by rw [replica?_perform_leaveCluster_of_empty empty]

end Topology

/-! ## Plans that pass all checks -/

/-- Each operation of the plan is ready when its turn comes. -/
def Topology.Passes (settings : Settings) (t : Topology) (ops : List Operation) : Prop :=
  ∃ final, Replay settings t ops final

namespace Topology

variable {settings : Settings} {t : Topology} {op : Operation} {ops : List Operation}
  {m : MemberId} {p : PartitionId} {priority : Priority}

theorem passes_nil : t.Passes settings [] := ⟨t, .nil (.refl t)⟩

theorem passes_cons_iff : t.Passes settings (op :: ops) ↔
    (∃ prepared, Ready settings t op prepared) ∧ (op.perform t).Passes settings ops := by
  constructor
  · rintro ⟨final, h⟩
    cases h with
    | cons ready tail => exact ⟨⟨_, ready⟩, final, ready.perform_eq ▸ tail⟩
  · rintro ⟨⟨prepared, ready⟩, final, tail⟩
    exact ⟨final, .cons ready (by rw [ready.perform_eq]; exact tail)⟩

theorem Passes.append {ops' : List Operation} (h : t.Passes settings ops)
    (h' : (t.performAll ops).Passes settings ops') : t.Passes settings (ops ++ ops') := by
  induction ops generalizing t with
  | nil => exact h'
  | cons op rest ih =>
      rcases passes_cons_iff.1 h with ⟨hready, hrest⟩
      exact passes_cons_iff.2 ⟨hready, ih hrest h'⟩

theorem Passes.replay (h : t.Passes settings ops) :
    Replay settings t ops (t.performAll ops) := by
  induction ops generalizing t with
  | nil => exact .nil (.refl t)
  | cons op rest ih =>
      rcases passes_cons_iff.1 h with ⟨⟨prepared, ready⟩, hrest⟩
      exact .cons ready (by rw [ready.perform_eq]; exact ih hrest)

/-- However a plan is carried out, it comes to what performing it does. -/
theorem alike_performAll_of_replay {final : Topology} (h : Replay settings t ops final) :
    final.Alike (t.performAll ops) := by
  induction h with
  | nil alike => exact alike.symm
  | @cons t final op prepared rest ready tail ih =>
      rw [performAll_cons, ← ready.perform_eq]
      exact ih

/-- A join passes if somebody else hosts the partition. -/
theorem exists_ready_joinPartition {other : MemberId} (active : t.status? m = some .active)
    (free : t.replica? m p = none) (hosted : (t.replica? other p).isSome) :
    ∃ prepared, Ready settings t ⟨m, .joinPartition p priority⟩ prepared := by
  have hdiffer : m ≠ other := by
    rintro rfl
    simp [free] at hosted
  refine ⟨_, .joinPartition active (by simp [free]) ?_⟩
  -- The other host is among those that the joining member is told of.
  intro hempty
  have hnone : ((t.priorities p).erase m)[other]? = none := by simp [hempty]
  rw [Std.ExtTreeMap.getElem?_erase, getElem?_priorities] at hnone
  simp only [Std.LawfulEqCmp.compare_eq_iff_eq, hdiffer, if_false, Option.map_eq_none_iff] at hnone
  simp [hnone] at hosted

theorem exists_ready_leavePartition_iff (active : t.status? m = some .active)
    (hosted : (t.replica? m p).isSome) :
    (∃ prepared, Ready settings t ⟨m, .leavePartition p⟩ prepared) ↔
      settings.floor ≤ t.replicaCount p - 1 := by
  constructor
  · rintro ⟨prepared, ready⟩
    cases ready with
    | leavePartition active hosted kept => exact kept
  · intro kept
    exact ⟨_, .leavePartition active hosted kept⟩

end Topology

end ReplicaCluster
