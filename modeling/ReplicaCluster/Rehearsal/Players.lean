import ReplicaCluster.Execution.Call
import ReplicaCluster.Failure
import ReplicaCluster.Rehearsal.Edit

/-!
# The members in a rehearsal

In a rehearsal the members only record what they are told.  They may be set up to disturb the
stored topology when they are called, and to fail.
-/

namespace ReplicaCluster

/-- An edit that another party makes while a member is called. -/
structure CallHook where
  /-- The kinds of calls during which it happens. -/
  kinds : List CallKind
  edit : Edit

/-- A failure with which members answer. -/
structure CallFailure where
  /-- The kinds of calls that fail. -/
  kinds : List CallKind
  /-- The number of failures to come. -/
  times : Nat
  failure : Failure

namespace CallFailure

/-- The answer to a call, and the failures that are left: the first one that fits and is not
used up strikes. -/
def answer (kind : CallKind) : List CallFailure → Except Failure Unit × List CallFailure
  | [] => (.ok (), [])
  | f :: rest =>
      if kind ∈ f.kinds ∧ 0 < f.times then
        (.error f.failure, { f with times := f.times - 1 } :: rest)
      else
        let (result, rest) := answer kind rest
        (result, f :: rest)

end CallFailure

end ReplicaCluster
