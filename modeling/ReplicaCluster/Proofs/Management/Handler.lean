import ReplicaCluster.Management.Handler

/-!
# What requests come to

A management request that names no members, where it has to, is refused before the store is asked.
Any other is handed to the coordinator: as a change, as a cancellation, as a recovery, or as a
question for the topology.  `Request.Handled` lists these cases.
-/

namespace ReplicaCluster

namespace Request

def reachesStore : Request → Bool
  | .addMembers members _ | .removeMembers members _ | .reassign members _ | .scale members _
  | .forceOverwrite members => !members.isEmpty
  | .joinPartition .. | .leavePartition .. | .cancel _ | .topology => true

/-- Whether a request asks to be told only what would happen. -/
def isDryRun : Request → Bool
  | .addMembers _ dryRun | .removeMembers _ dryRun | .joinPartition _ _ _ dryRun
  | .leavePartition _ _ dryRun | .reassign _ dryRun | .scale _ dryRun => dryRun
  | .cancel _ | .forceOverwrite _ | .topology => false

/-- What is planned for a request, if that asks for a change. -/
def intent? (settings : Settings) : Request → Option Intent
  | .addMembers members _ => some (.addMembers members settings.replicationFactor)
  | .removeMembers members _ => some (.removeMembers members settings.replicationFactor)
  | .joinPartition member p priority _ => some (.perform [⟨member, .joinPartition p priority⟩])
  | .leavePartition member p _ => some (.perform [⟨member, .leavePartition p⟩])
  | .reassign members _ => some (.reassign members settings.replicationFactor)
  | .scale members _ => some (.scale members settings.replicationFactor)
  | .cancel _ | .forceOverwrite _ | .topology => none

/-- The ways in which a request is handled. -/
inductive Handled (settings : Settings) (now : Int) : Request → Process Response → Prop
  | refused {r : Request} (silent : r.reachesStore = false) :
      Handled settings now r (.fail Cause.noMembersGiven.failure)
  | change {r : Request} (intent : Intent) (asked : r.intent? settings = some intent)
      (reaches : r.reachesStore = true) :
      Handled settings now r (change settings now r.isDryRun intent)
  | cancel (id : Nat) :
      Handled settings now (.cancel id) ((Coordinator.cancel now id).map .topology)
  | recover (members : List MemberId) (reaches : (forceOverwrite members).reachesStore = true) :
      Handled settings now (.forceOverwrite members)
        ((Coordinator.recover settings now members).map fun r => .change r.summary)
  | topology : Handled settings now .topology (Coordinator.topology.map .topology)

variable {settings : Settings} {now : Int}

theorem handled_withMembers {r : Request} {members : List MemberId} {next : Process Response}
    (hhandle : r.handle settings now = withMembers members next)
    (hreaches : r.reachesStore = !members.isEmpty)
    (hnext : r.reachesStore = true → r.Handled settings now next) :
    r.Handled settings now (r.handle settings now) := by
  cases hmembers : members.isEmpty with
  | true =>
      have hfail : r.handle settings now = .fail Cause.noMembersGiven.failure := by
        simp [hhandle, withMembers, checkMembers, hmembers, refuse]
      rw [hfail]
      exact .refused (by simp [hreaches, hmembers])
  | false =>
      have hgoes : r.handle settings now = next := by
        simp [hhandle, withMembers, checkMembers, hmembers]
      rw [hgoes]
      exact hnext (by simp [hreaches, hmembers])

theorem handled (settings : Settings) (now : Int) (r : Request) :
    r.Handled settings now (r.handle settings now) := by
  cases r with
  | addMembers members dryRun => exact handled_withMembers rfl rfl (.change _ rfl)
  | removeMembers members dryRun => exact handled_withMembers rfl rfl (.change _ rfl)
  | reassign members dryRun => exact handled_withMembers rfl rfl (.change _ rfl)
  | scale members dryRun => exact handled_withMembers rfl rfl (.change _ rfl)
  | joinPartition member p priority dryRun => exact .change _ rfl rfl
  | leavePartition member p dryRun => exact .change _ rfl rfl
  | cancel id => exact .cancel id
  | forceOverwrite members => exact handled_withMembers rfl rfl (.recover members)
  | topology => exact .topology

end Request

end ReplicaCluster
