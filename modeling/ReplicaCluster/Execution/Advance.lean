import ReplicaCluster.Execution.Prepared
import ReplicaCluster.Process

/-!
# Carrying out stored changes

A stored change is carried out one operation at a time, in four atomic steps: read the topology
and prepare the operation, mark it as under way, call its member, confirm it.  Both writes look
at the stored topology again.  The first one refuses if the operation is not the next one any
more; the second one then confirms what the member did, but leaves the ledger alone.

An operation that fails stays marked as under way, and its change stays pending; it is taken up
again by the next attempt.
-/

namespace ReplicaCluster

namespace Execution

/-- Whether an operation is the next one of a change that is still pending. -/
def isNext (change : Nat) (op : Operation) (t : Topology) : Bool :=
  t.pending.any fun c => c.id = change && c.next? = some op

/-- The revision that marks an operation as under way. -/
def starting (change : Nat) (op : Operation) (prepared : Prepared) : Revision := fun stored =>
  if isNext change op stored then .ok (prepared.inProgress.apply op.member stored)
  else refuse (.changeMovedOn change op)

/-- The revision that confirms an operation. -/
def finishing (now : Int) (change : Nat) (op : Operation) (prepared : Prepared) : Revision :=
  fun stored =>
    if isNext change op stored then stored.advanceChange now op.member prepared.confirmed
    else .ok (prepared.confirmed.apply op.member stored)

/-- Carries out the next operation, if there is one, and tells which one that was. -/
def advance (settings : Settings) (now : Int) : Process (Option Operation) :=
  .read fun t =>
    match t.pending, t.next? with
    | some c, some op =>
        match op.prepare settings t with
        | .error e => .fail e
        | .ok prepared =>
            .update (starting c.id op prepared) fun _ =>
              -- From here on the member may act, whatever becomes of the change meanwhile.
              .call prepared.call <|
                .update (finishing now c.id op prepared) fun _ => .done (some op)
    | _, _ => .done none

end Execution

/-- The order by which repeated advances come to an end: fewer outside disturbances first, then
fewer operations to do. -/
abbrev Progress := Nat × Nat

/-- Whether one stage of progress is nearer to the end than another. -/
def Progress.Before (a b : Progress) : Prop := a.1 < b.1 ∨ (a.1 = b.1 ∧ a.2 < b.2)

instance (a b : Progress) : Decidable (a.Before b) := by
  unfold Progress.Before; infer_instance

theorem Progress.before_wf : WellFounded Progress.Before := by
  refine Subrelation.wf (r := Prod.Lex (· < ·) (· < ·)) ?_
    (Prod.lex ⟨_, Nat.lt_wfRel.wf⟩ ⟨_, Nat.lt_wfRel.wf⟩).wf
  rintro ⟨a, b⟩ ⟨c, d⟩ (h | ⟨h, h'⟩)
  · exact .left _ _ h
  · cases h; exact .right _ h'

namespace Execution

variable {σ : Type}

/-- Advances until nothing is pending and counts the operations.  An operation that was carried
out brings the state nearer to the end; the test of that is what shows that the loop ends. -/
def drain (host : Host σ) (progress : σ → Progress) (settings : Settings) (now : Int)
    (s : σ) : Except Failure Nat × σ :=
  match (advance settings now).run host s with
  | (.error e, s') => (.error e, s')
  | (.ok none, s') => (.ok 0, s')
  | (.ok (some _), s') =>
      if (progress s').Before (progress s) then
        match drain host progress settings now s' with
        | (.ok n, s'') => (.ok (n + 1), s'')
        | (.error e, s'') => (.error e, s'')
      -- Not reached where `progress` counts all that can write to the store.
      else (.ok 1, s')
termination_by Progress.before_wf.wrap (progress s)
decreasing_by assumption

/-- The progress of a topology without outside disturbances. -/
def remaining (t : Topology) : Nat := ((t.pending.map (·.remaining)).getD []).length

end Execution

end ReplicaCluster
