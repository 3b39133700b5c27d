import ReplicaCluster.Proofs.Interleaving.Driver
import ReplicaCluster.Proofs.Interleaving.Errand
import ReplicaCluster.Proofs.Interleaving.ReplicationFloor

/-!
# Members are told what the store says

What a call says is looked up when its operation is prepared, on a topology that was read before.
Until the call is made the operation is marked in the store, its change may be cancelled, and another
change may be begun.  None of this concerns any member, but for the marking, which the call takes
into account.  So it agrees with the topology that is stored when it is made (`calls_match_store`).
-/

namespace ReplicaCluster

/-- What a call takes to be so in a topology. -/
def Call.Matches (t : Topology) : Call → Prop
  | .addMember m => t.status? m = some .joining
  | .removeMember m => t.status? m = some .leaving ∧ ∀ p, t.replica? m p = none
  | .join m p hosts => hosts = t.priorities p ∧
      ∃ priority, hosts[m]? = some priority ∧ t.replica? m p = some (.joining priority)
  | .leave m p => ∃ priority, t.replica? m p = some ⟨.leaving, priority⟩
  | .setPriority m p _ => ∃ priority, t.replica? m p = some (.active priority)
  | .forceReconfigure m p hosts _ => hosts = (t.replicas p).keys ∧ m ∈ hosts
  | .overwriteHosts _ _ hosts => ∀ id ∈ hosts, ∃ s, t.status? id = some s ∧ s ≠ .leaving

namespace Process

variable {α β : Type}

/-- The process calls no member. -/
def Silent : Process α → Prop
  | .done _ | .fail _ => True
  | .read next => ∀ t, (next t).Silent
  | .update _ next => ∀ t, (next t).Silent
  | .call _ _ => False

theorem Silent.map {p : Process α} (h : p.Silent) (f : α → β) : (p.map f).Silent := by
  induction p with
  | done result => trivial
  | fail failure => trivial
  | read next ih =>
      intro t
      exact ih t (h t)
  | update revise next ih =>
      intro t
      exact ih t (h t)
  | call c next ih => exact h.elim

end Process

theorem Coordinator.silent_request (settings : Settings) (now : Int) (dryRun : Bool)
    (planner : Planner) : (request settings now dryRun planner).Silent := by
  intro t
  cases hpropose : propose settings now planner t with
  | error e => simp [hpropose, Process.Silent]
  | ok proposal =>
      cases proposal with
      | none => simp [hpropose, Process.Silent]
      | some p => cases dryRun <;> simp [hpropose, Process.Silent]

theorem Coordinator.silent_cancel (now : Int) (change : Nat) : (cancel now change).Silent :=
  fun _ => trivial

namespace Interleaving

variable {settings : Settings} {t t₀ : Topology} {op : Operation} {prepared : Prepared}
  {s s' : Scene} {e : Event} {events : List Event}

/-- The call that a session makes with its next step. -/
def Session.call? (c : Session) : Option Call :=
  match c.rest with
  | .call call _ => some call
  | _ => none

theorem Session.call?_eq_some_iff {c : Session} {call : Call} :
    c.call? = some call ↔ ∃ next, c.rest = .call call next := by
  unfold Session.call?
  cases c.rest <;> simp [eq_comm]

/-! ## Calls of operations under way -/

theorem Underway.status?_eq (h : Underway settings t op prepared) (id : MemberId) :
    ∃ status, t.status? id = op.marksStatus id status := by
  rcases h with ⟨t₀, ready, hmembers⟩
  exact ⟨_, (Topology.status?_congr hmembers).trans (ready.status?_inProgress id)⟩

theorem Underway.replica?_eq (h : Underway settings t op prepared) (id : MemberId)
    (p : PartitionId) : ∃ r, t.replica? id p = op.marks id p r := by
  rcases h with ⟨t₀, ready, hmembers⟩
  exact ⟨_, (Topology.replica?_congr hmembers).trans (ready.replica?_inProgress id p)⟩

/-- The call of an operation that has been marked takes nothing to be so that is not. -/
theorem Underway.call_matches (h : Underway settings t op prepared) : prepared.call.Matches t := by
  have hstatus := h.status?_eq
  have hreplica := h.replica?_eq
  cases h.ready with
  | @joinCluster m free =>
      rcases hstatus m with ⟨status, hs⟩
      simpa [Call.Matches, Operation.marksStatus] using hs
  | @leaveCluster m s known settled empty =>
      rcases hstatus m with ⟨status, hs⟩
      exact ⟨by simpa [Operation.marksStatus] using hs, empty⟩
  | @joinPartition m p priority active filling others =>
      rcases hreplica m p with ⟨r, hr⟩
      have hjoining : t.replica? m p = some (.joining priority) := by
        simpa [Operation.marks] using hr
      -- The new host is in the store already, with its priority.
      refine ⟨Std.ExtTreeMap.ext_getElem? fun id => ?_, priority, by simp, hjoining⟩
      by_cases hid : m = id
      · subst hid
        simp [Topology.getElem?_priorities, hjoining, Replica.joining]
      · simp [Std.ExtTreeMap.getElem?_insert, Std.ExtTreeMap.getElem?_erase, hid]
  | @leavePartition m p active hosted kept =>
      rcases hreplica m p with ⟨r, hr⟩
      have hleaving : t.replica? m p = r.map fun r => { r with status := .leaving } := by
        simpa [Operation.marks] using hr
      cases r with
      | none => simp [hleaving] at hosted
      | some r => exact ⟨r.priority, hleaving⟩
  | @setPriority m p priority r active hosted serving =>
      exact ⟨r.priority, by rw [hosted, Replica.active, ← serving]⟩
  | overwriteHosts coordinator nonempty nodup known =>
      intro id hid
      exact known id (Priorities.isSome_descending.1 (Std.ExtTreeMap.mem_iff_isSome_getElem?.1 hid))
  | @forceReconfigure m p bootstrap hosted =>
      refine ⟨rfl, Std.ExtTreeMap.mem_keys.2 (Std.ExtTreeMap.mem_iff_isSome_getElem?.2 ?_)⟩
      rwa [Topology.getElem?_replicas]

/-! ## One driver among coordinators -/

/-- Coordinators handle requests, whatever their plans, and cancel changes; the driver carries the
changes out. -/
def conducting (settings : Settings) : Party → Task → Prop
  | .driver, .advance own => own = settings
  | .coordinator _, .change .. => True
  | .coordinator _, .cancel _ => True
  | _, _ => False

theorem sharing_of_conducting {i : Party} {task : Task} (duty : conducting settings i task) :
    sharing i task := by
  cases i <;> cases task <;> first | exact duty.elim | trivial

theorem disciplined_conducting (settings : Settings) :
    Disciplined (conducting settings) (fun _ => True) settings := by
  refine ⟨?_, ?_⟩
  · intro task duty
    cases task with
    | advance own => exact congrArg Task.advance duty
    | _ => exact duty.elim
  · intro n task now duty
    cases task with
    | change own dryRun planner => exact admits_change own dryRun now fun _ _ _ _ _ => trivial
    | cancel id => exact admits_cancel id now
    | manage own request => exact duty.elim
    | advance own => exact duty.elim

/-! ## Who calls -/

theorem silent_of_coordinator {n : Nat} {task : Task} (now : Int)
    (duty : conducting settings (.coordinator n) task) : (task.process now).Silent := by
  cases task with
  | change own dryRun planner => exact (Coordinator.silent_request own now dryRun planner).map _
  | cancel change => exact (Coordinator.silent_cancel now change).map _
  | manage own request => exact duty.elim
  | advance own => exact duty.elim

/-- Whatever coordinators are busy with, they call no member. -/
def Discreet (s : Scene) : Prop :=
  ∀ i c, s.busy i = some c → i ≠ .driver → c.rest.Silent

theorem Discreet.step (h : Discreet s) (step : Step (conducting settings) s e s') :
    Discreet s' := by
  refine step.forall_busy (p := fun i c => i ≠ .driver → c.rest.Silent) h ?_ ?_ ?_ ?_
  · intro i task now duty hi
    cases i with
    | driver => exact absurd rfl hi
    | coordinator n => exact silent_of_coordinator now duty
  · intro i c next t hc hrest hi
    have hsilent := hc hi
    rw [hrest] at hsilent
    exact hsilent t
  · intro i c revise next t hc hrest hi
    have hsilent := hc hi
    rw [hrest] at hsilent
    exact hsilent t
  · intro i c call next hc hrest hi
    have hsilent := hc hi
    rw [hrest] at hsilent
    exact hsilent.elim

theorem eq_driver_of_call (run : Run (Step (conducting settings)) (.start t₀) events s) {i : Party}
    {c : Session} (busy : s.busy i = some c) {call : Call} (calls : c.call? = some call) :
    i = .driver := by
  have hdiscreet : Discreet s := run.invariant (by simp [Discreet]) fun _ _ _ h step => h.step step
  rcases Session.call?_eq_some_iff.1 calls with ⟨next, hrest⟩
  by_contra hi
  have hsilent := hdiscreet i c busy hi
  rw [hrest] at hsilent
  exact hsilent

/-! ## What the driver calls for -/

section Driver

variable {good : Operation → Prop} {now : Int} {id : Nat} {written : Bool} {call : Call}
  {next : Process Result} {errand : Option (Nat × Operation)}

/-- A process that is about to call shows which operation it is for. -/
theorem op_eq_of_calling {id' : Nat} {op' : Operation} {prepared' : Prepared}
    (h : calling now id op prepared = calling now id' op' prepared') : op = op' := by
  have hrest := (Process.call.inj h).2
  have hdone := congrFun (Process.update.inj hrest).2 default
  exact Option.some.inj (Result.advanced.inj (Process.done.inj hdone))

theorem Stage.exists_underway (h : Stage good settings t now written (.call call next)) :
    ∃ id op prepared, Process.call call next = Interleaving.calling now id op prepared ∧
      Underway settings t op prepared := by
  generalize hprocess : Process.call call next = process at h
  cases h with
  | reading hrest => simp [hrest, Execution.advance, Process.map] at hprocess
  | @calling id op prepared sane underway => exact ⟨id, op, prepared, rfl, underway⟩
  | _ => cases hprocess

theorem Phase.exists_calling (h : Phase events now errand (.call call next)) :
    ∃ id op prepared, errand = some (id, op) ∧
      Process.call call next = Interleaving.calling now id op prepared := by
  generalize hprocess : Process.call call next = process at h
  cases h with
  | reading hrest => simp [hrest, Execution.advance, Process.map] at hprocess
  | @calling id op prepared marked => exact ⟨id, op, prepared, rfl, rfl⟩
  | _ => cases hprocess

end Driver

/-! ## Calls in every run -/

/-- Coordinators begin and cancel changes, and one driver carries them out, with any plans, from any
topology, in any order of atomic steps and with failures and restarts at any point.  Whenever a call
is about to be made, whether or not it will succeed, it is the driver that makes it, for the operation
that it has set out to carry out.  The call agrees with the topology that is stored at that moment:

* a new host of a partition is told of all hosts in the store with their priorities, and it is one
  of them itself, with the priority that the operation gives it;
* whoever is declared an owner of a partition is told of just the hosts in the store;
* new hosts that a partition is given are known in the store, and not about to leave;
* a member that is told to leave a partition hosts it in the store, and a member that is removed
  hosts nothing. -/
theorem calls_match_store (settings : Settings) {t₀ : Topology} {events : List Event} {s : Scene}
    (run : Run (Step (conducting settings)) (.start t₀) events s) {i : Party} {c : Session}
    (busy : s.busy i = some c) {call : Call} (calls : c.call? = some call) :
    i = .driver ∧ (∃ id op, c.errand? = some (id, op) ∧ call.Serves op) ∧
      call.Matches s.stored := by
  have hi : i = .driver := eq_driver_of_call run busy calls
  subst hi
  rcases Session.call?_eq_some_iff.1 calls with ⟨next, hrest⟩
  have hsound : Sound (conducting settings) (fun _ => True) settings s :=
    sound_run_of_pending (disciplined_conducting settings) (fun _ _ _ _ => trivial) run
  have hstage := hsound.driver c busy
  have hsharing : Run (Step sharing) (.start t₀) events s :=
    run_restrict run fun _ _ began => sharing_of_conducting (duty_of_began run began)
  have hphase := inPhase_run hsharing c busy
  rw [hrest] at hstage hphase
  rcases hstage.exists_underway with ⟨_, op, prepared, hcalling, hunderway⟩
  rcases hphase.exists_calling with ⟨id, op', prepared', herrand, hcalling'⟩
  -- Both say what is left to do, so they speak of the same operation.
  have hop : op = op' := op_eq_of_calling (hcalling.symm.trans hcalling')
  have hcall : call = prepared.call := (Process.call.inj hcalling).1
  refine ⟨rfl, ⟨id, op, hop ▸ herrand, ?_⟩, ?_⟩
  · rw [hcall]
    exact hunderway.ready.call_serves
  · rw [hcall]
    exact hunderway.call_matches

/-- The change that lets a third member host the partition is cancelled before that member is told,
and another change is begun. -/
def belatedJoin : List Choice :=
  let plan : Planner := .perform [⟨"c", .joinCluster⟩, ⟨"c", .joinPartition 1 3⟩]
  [.begin (.coordinator 0) (.change {} false plan) 0, .go (.coordinator 0), .go (.coordinator 0),
    .begin .driver (.advance {}) 0, .go .driver, .go .driver, .go .driver, .go .driver, .go .driver,
    .begin .driver (.advance {}) 0, .go .driver, .go .driver, .stop .driver,
    .begin .driver (.advance {}) 0, .go .driver, .go .driver,
    .begin (.coordinator 1) (.cancel 1) 0, .go (.coordinator 1),
    .begin (.coordinator 2) (.change {} false (.perform [⟨"b", .setPriority 1 4⟩])) 0,
    .go (.coordinator 2), .go (.coordinator 2)]

theorem calls_match_store_belatedJoin :
    ∃ events s c hosts, (Scene.start pair).follow belatedJoin = some (events, s) ∧
      s.busy .driver = some c ∧ c.call? = some (.join "c" 1 hosts) ∧
      s.stored.next? = some ⟨"b", .setPriority 1 4⟩ ∧ hosts = s.stored.priorities 1 ∧
      hosts["c"]? = some 3 := by
  have hpermitted : ∀ choice ∈ belatedJoin, choice.Permitted (conducting {}) := by
    simp [belatedJoin, Choice.Permitted, conducting]
  have hviews : ((Scene.start pair).follow belatedJoin).map (fun r =>
      ((r.2.busy .driver).bind (·.call?), r.2.stored.next?)) =
      some (some (.join "c" 1 (.ofList [("a", 2), ("b", 1), ("c", 3)])),
        some ⟨"b", .setPriority 1 4⟩) := by
    decide +kernel
  rcases hfollow : (Scene.start pair).follow belatedJoin with _ | ⟨events, s⟩
  · simp [hfollow] at hviews
  · simp only [hfollow, Option.map_some, Option.some.injEq, Prod.mk.injEq] at hviews
    rcases Option.bind_eq_some_iff.1 hviews.1 with ⟨c, hbusy, hcall⟩
    rcases calls_match_store {} (run_of_follow hpermitted hfollow) hbusy hcall with
      ⟨-, -, hhosts, -⟩
    exact ⟨events, s, c, _, rfl, hbusy, hcall, hviews.2, hhosts, by decide +kernel⟩

end Interleaving

end ReplicaCluster
