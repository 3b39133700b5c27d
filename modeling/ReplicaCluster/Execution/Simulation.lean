import ReplicaCluster.Execution.Prepared

/-!
# Simulation

A change is carried out on a topology in memory, with members that always comply, before it is
stored.  A change that cannot be carried out is an invalid request, whatever the failure was.
-/

namespace ReplicaCluster

/-- Turns any failure into an invalid request; other kinds keep their message as the reason. -/
def Failure.asInvalidRequest (f : Failure) : Failure :=
  if f.kind = .invalidRequest then f else ⟨.invalidRequest, f.message⟩

namespace Topology

/-- Carries out one operation, which must be the next one of the pending change. -/
def carryOut (settings : Settings) (now : Int) (t : Topology) (op : Operation) :
    Except Failure Topology := do
  let prepared ← op.prepare settings t
  (prepared.inProgress.apply op.member t).advanceChange now op.member prepared.confirmed

/-- Carries out all that remains of the pending change. -/
def simulate (settings : Settings) (now : Int) (t : Topology) : Except Failure Topology :=
  let remaining := (t.pending.map (·.remaining)).getD []
  (remaining.foldlM (carryOut settings now) t).mapError Failure.asInvalidRequest

end Topology

end ReplicaCluster
