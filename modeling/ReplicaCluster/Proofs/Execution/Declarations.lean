import ReplicaCluster.Proofs.Execution.Performing
import ReplicaCluster.Proofs.Planning.Moves

/-!
# Declaring hosts the owners of their partitions

Declaring the hosts of partitions their owners moves no replica; it only makes the declared ones
active.  So a list of such declarations can be carried out on whatever topology has these hosts
(`Topology.passes_declarations`), and each call names the hosts that the partition had at the
beginning (`Told.declarations`).
-/

namespace ReplicaCluster

open ReplicaCluster.Topology ReplicaCluster.Operation

variable {settings : Settings} {now : Int} {t t' : Topology} {op : Operation}
  {ops : List Operation} {m id : MemberId} {p q : PartitionId} {bootstrap : Bool} {calls : List Call}

/-- The operation declares a member an owner of a partition. -/
def Operation.Declares (op : Operation) (m : MemberId) (p : PartitionId) : Prop :=
  ∃ bootstrap, op = ⟨m, .forceReconfigure p bootstrap⟩

/-- The same replica, serving. -/
def Replica.serving (r : Replica) : Replica := { r with status := .active }

/-! ## One declaration -/

namespace Operation.Declares

theorem site_eq (h : op.Declares m p) : op.site = (m, some p) := by
  rcases h with ⟨bootstrap, rfl⟩
  rfl

theorem exists_ready (h : op.Declares m p) (hosted : (t.replica? m p).isSome) :
    ∃ prepared, Ready settings t op prepared := by
  rcases h with ⟨bootstrap, rfl⟩
  exact ⟨_, .forceReconfigure hosted⟩

theorem status?_perform (h : op.Declares m p) :
    (op.perform t).status? id = t.status? id := by
  rcases h with ⟨bootstrap, rfl⟩
  exact status?_modifyMember_of_keeps fun x => by simp

theorem replica?_perform (h : op.Declares m p) :
    (op.perform t).replica? id q =
      if (id, some q) = op.site then (t.replica? id q).map Replica.serving
      else t.replica? id q := by
  rw [h.site_eq]
  rcases h with ⟨bootstrap, rfl⟩
  calc (Operation.perform ⟨m, .forceReconfigure p bootstrap⟩ t).replica? id q
    _ = if m = id ∧ p = q then (t.replica? id q).map Replica.serving else t.replica? id q :=
      replica?_modifyReplica Replica.serving
    _ = _ := by simp [eq_comm]

end Operation.Declares

/-! ## Lists of declarations -/

namespace Topology

theorem replica?_performAll_declarations (declares : ∀ op ∈ ops, ∃ m p, op.Declares m p) :
    (t.performAll ops).replica? id q =
      if (id, some q) ∈ ops.map site then (t.replica? id q).map Replica.serving
      else t.replica? id q := by
  induction ops generalizing t with
  | nil => simp
  | cons op rest ih =>
      rcases List.forall_mem_cons.1 declares with ⟨⟨m, p, hop⟩, hrest⟩
      rw [performAll_cons, ih hrest, hop.replica?_perform]
      -- Making a replica serve twice is the same as making it serve once.
      have htwice : Replica.serving ∘ Replica.serving = Replica.serving := rfl
      by_cases hown : (id, some q) = op.site
      · simp [hown, htwice]
      · simp [hown]

/-- Where the members to be declared are hosts, declaring them passes all checks. -/
theorem passes_declarations
    (declares : ∀ op ∈ ops, ∃ m p, op.Declares m p ∧ (t.replica? m p).isSome) :
    t.Passes settings ops := by
  induction ops generalizing t with
  | nil => exact passes_nil
  | cons op rest ih =>
      rcases List.forall_mem_cons.1 declares with ⟨⟨m, p, hop, hosted⟩, hrest⟩
      have hlater : ∀ op' ∈ rest, ∃ m p, op'.Declares m p ∧
          ((op.perform t).replica? m p).isSome := by
        intro op' hop'
        rcases hrest op' hop' with ⟨m', p', hdeclares, hhosted⟩
        refine ⟨m', p', hdeclares, ?_⟩
        rw [hop.replica?_perform]
        split
        · simpa using hhosted
        · exact hhosted
      exact passes_cons_iff.2 ⟨hop.exists_ready hosted, ih hlater⟩

theorem status?_performAll_declarations (declares : ∀ op ∈ ops, ∃ m p, op.Declares m p) :
    (t.performAll ops).status? id = t.status? id := by
  induction ops generalizing t with
  | nil => rfl
  | cons op rest ih =>
      rcases List.forall_mem_cons.1 declares with ⟨⟨m, p, hop⟩, hrest⟩
      rw [performAll_cons, ih hrest, hop.status?_perform]

/-- The hosts of a partition, in the order of their names. -/
theorem keys_replicas_congr (h : ∀ id, (t.replica? id p).isSome = (t'.replica? id p).isSome) :
    (t.replicas p).keys = (t'.replicas p).keys := by
  have hmap : (t.replicas p).map (fun _ _ => ()) = (t'.replicas p).map fun _ _ => () := by
    refine Std.ExtTreeMap.ext_getElem? fun id => ?_
    rw [Std.ExtTreeMap.getElem?_map, Std.ExtTreeMap.getElem?_map, getElem?_replicas,
      getElem?_replicas]
    have hid := h id
    unfold replica? at hid
    cases hr : (t.member? id).bind (·.replica? p) <;>
      cases hr' : (t'.member? id).bind (·.replica? p) <;> simp_all
  rw [← Std.ExtTreeMap.keys_map (f := fun _ _ => ()), hmap, Std.ExtTreeMap.keys_map]

end Topology

/-! ## The calls of declarations -/

/-- Every call for a declaration names the hosts that the partition had before the first one. -/
theorem Told.declarations {owners : PartitionId → List MemberId}
    (h : Told settings now t ops calls) (declares : ∀ op ∈ ops, ∃ m p, op.Declares m p)
    (keys : ∀ p, (t.replicas p).keys = owners p) :
    List.Forall₂ (fun call op => ∃ m p bootstrap, op = ⟨m, .forceReconfigure p bootstrap⟩ ∧
      call = .forceReconfigure m p (owners p) bootstrap) calls ops := by
  induction h with
  | nil => exact .nil
  | @cons t t' op prepared rest calls checked carried tail ih =>
      rcases List.forall_mem_cons.1 declares with ⟨⟨m, p, hop⟩, hrest⟩
      have ready := Operation.ready_of_prepare checked
      have hmembers : t'.members = (op.perform t).members := by
        rw [← ready.perform_eq]
        exact members_of_carryOut checked carried
      have hkeys : ∀ q, (t'.replicas q).keys = owners q := by
        intro q
        rw [← keys q]
        refine keys_replicas_congr fun id => ?_
        rw [replica?_congr hmembers, hop.replica?_perform]
        split <;> simp
      refine .cons ?_ (ih hrest hkeys)
      rcases hop with ⟨bootstrap, rfl⟩
      cases ready with
      | forceReconfigure hosted => exact ⟨m, p, bootstrap, rfl, by rw [keys p]⟩

end ReplicaCluster
