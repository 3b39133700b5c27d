import ReplicaCluster.Execution.Advance
import ReplicaCluster.Rehearsal.Players
import ReplicaCluster.Rehearsal.Schedule
import ReplicaCluster.Store

/-!
# The world of a rehearsal

A store with everything that may go wrong around it: other parties that write at given moments,
reads and writes that fail, members that fail, and readers that see an old topology.  All
disturbances are laid down beforehand, so a rehearsal always takes the same course.
-/

namespace ReplicaCluster

structure World where
  /-- The time, in nanoseconds since the epoch. -/
  clock : Int
  store : Store
  /-- What readers see instead of the store, if they see an old topology. -/
  frozen : Option Topology
  /-- Edits of other parties, due right before a revision. -/
  interference : Schedule Edit
  failingUpdates : Schedule Failure
  failingReads : Schedule Failure
  hooks : List CallHook
  callFailures : List CallFailure
  /-- What members were told, in order. -/
  calls : List Call

namespace World

def start (clock : Int) (store : Store) : World := ⟨clock, store, none, [], [], [], [], [], []⟩

/-- Lets time pass, so that what happens before and after has different times. -/
def tick (w : World) : World := { w with clock := w.clock + 1 }

/-- Applies an edit to the store; if it fails nothing happens. -/
def disturb (w : World) (edit : Edit) : World :=
  { w with store := (w.store.update fun t => edit.apply w.clock t).2 }

def read (w : World) : Except Failure Topology × World :=
  let after := { w with failingReads := w.failingReads.tick }
  match w.failingReads.due? with
  | some f => (.error f, after)
  | none =>
      match w.frozen with
      | some t => (.ok t, after)
      | none => (w.store.topology, after)

/-- Revises the stored topology.  A failure that is due keeps an edit that is due at the same
time from happening. -/
def update (revise : Revision) (w : World) : Except Failure Topology × World :=
  let after :=
    { w with
      interference := w.interference.tick
      failingUpdates := w.failingUpdates.tick }
  match w.failingUpdates.due? with
  | some f => (.error f, after)
  | none =>
      let disturbed :=
        match w.interference.due? with
        | some edit => after.disturb edit
        | none => after
      let (result, store) := disturbed.store.update revise
      (result, { disturbed with store })

/-- Lets happen what is set up to happen during a call. -/
def fireHook (kind : CallKind) (w : World) : World :=
  match w.hooks.find? fun h => kind ∈ h.kinds with
  | some hook =>
      { w with hooks := w.hooks.eraseP fun h => kind ∈ h.kinds }.disturb hook.edit
  | none => w

def call (c : Call) (w : World) : Except Failure Unit × World :=
  let disturbed := { w with calls := w.calls ++ [c] }.fireHook c.kind
  let (result, callFailures) := CallFailure.answer c.kind disturbed.callFailures
  (result, { disturbed with callFailures })

/-- The parties of a rehearsal. -/
def host : Host World where
  read := read
  update := update
  call := call

/-- How far the carrying out of changes is from its end: the disturbances that may still write,
and the operations to do. -/
def progress (w : World) : Progress := (w.hooks.length + w.interference.length, w.store.remaining)

end World

end ReplicaCluster
