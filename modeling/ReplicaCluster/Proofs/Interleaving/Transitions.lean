import ReplicaCluster.Proofs.Interleaving.ReplicationFloor
import ReplicaCluster.Proofs.Interleaving.Serialization

/-!
# What is in transition

Where nothing is ever cancelled, only what the next operation is about is joining or leaving: the
marks that an operation sets are taken back when it is confirmed, and no other operation becomes the
next one before that.  A failure in between leaves the marks in place, but the operation as well.

`Topology.ActiveBut` says that all is active but what an operation moves, and `Focused` is the
invariant of a run by which that holds of the next operation at all times (`only_next_moves`).
-/

namespace ReplicaCluster

/-! ## What an operation moves -/

namespace Operation

/-- Whether the operation takes the member into the cluster or out of it. -/
def MovesMember (op : Operation) (id : MemberId) : Prop :=
  op.member = id ∧ (op.action = .joinCluster ∨ op.action = .leaveCluster)

/-- Whether the operation takes the member to the partition or away from it. -/
def MovesReplica (op : Operation) (id : MemberId) (p : PartitionId) : Prop :=
  op.member = id ∧ ((∃ priority, op.action = .joinPartition p priority) ∨
    op.action = .leavePartition p)

variable (op : Operation) (id : MemberId) (p : PartitionId)

theorem marksStatus_eq_or_moves (s : Option Status) :
    op.marksStatus id s = s ∨ op.MovesMember id := by
  rcases op with ⟨m, action⟩
  by_cases hm : m = id
  · cases action with
    | joinCluster => exact Or.inr ⟨hm, Or.inl rfl⟩
    | leaveCluster => exact Or.inr ⟨hm, Or.inr rfl⟩
    | _ => exact Or.inl rfl
  · cases action <;> simp [marksStatus, hm]

theorem marks_eq_or_moves (r : Option Replica) : op.marks id p r = r ∨ op.MovesReplica id p := by
  rcases op with ⟨m, action⟩
  cases action with
  | joinPartition q priority =>
      by_cases htarget : m = id ∧ q = p
      · rcases htarget with ⟨hm, rfl⟩
        exact Or.inr ⟨hm, Or.inl ⟨priority, rfl⟩⟩
      · exact Or.inl (if_neg htarget)
  | leavePartition q =>
      by_cases htarget : m = id ∧ q = p
      · rcases htarget with ⟨hm, rfl⟩
        exact Or.inr ⟨hm, Or.inr rfl⟩
      · exact Or.inl (if_neg htarget)
  | _ => exact Or.inl rfl

/-- A member that an operation has moved is active or gone once that is confirmed. -/
theorem active_of_confirmsStatus {s : Option Status} {s' : Status}
    (h : op.confirmsStatus id s = some s')
    (settled : ∀ s₀, s = some s₀ → s₀ = .active ∨ op.MovesMember id) : s' = .active := by
  rcases op with ⟨m, action⟩
  cases action with
  | joinCluster =>
      by_cases hm : m = id
      · have hjoined : s.map (fun _ => Status.active) = some s' := by
          simpa [confirmsStatus, hm] using h
        rcases Option.map_eq_some_iff.1 hjoined with ⟨-, -, hactive⟩
        exact hactive.symm
      · have hs : s = some s' := by simpa [confirmsStatus, hm] using h
        simpa [MovesMember, hm] using settled s' hs
  | leaveCluster =>
      by_cases hm : m = id
      · simp [confirmsStatus, hm] at h
      · have hs : s = some s' := by simpa [confirmsStatus, hm] using h
        simpa [MovesMember, hm] using settled s' hs
  | _ => simpa [MovesMember] using settled s' h

/-- A replica that an operation has moved is active or gone once that is confirmed. -/
theorem active_of_confirms {r : Option Replica} {r' : Replica} (h : op.confirms id p r = some r')
    (settled : ∀ r₀, r = some r₀ → r₀.status = .active ∨ op.MovesReplica id p) :
    r'.status = .active := by
  rcases op with ⟨m, action⟩
  cases action with
  | joinPartition q priority =>
      by_cases htarget : m = id ∧ q = p
      · have hjoined : r.map (fun r => { r with status := .active }) = some r' := by
          simpa [confirms, htarget] using h
        rcases Option.map_eq_some_iff.1 hjoined with ⟨r₀, -, rfl⟩
        rfl
      · -- Any other replica is as before, and so not moved by the operation.
        have hr : r = some r' := by simpa [confirms, htarget] using h
        rcases settled r' hr with hactive | ⟨hm, ⟨priority', hjoin⟩ | hleave⟩
        · exact hactive
        · exact absurd ⟨hm, (Action.joinPartition.inj hjoin).1⟩ htarget
        · cases hleave
  | leavePartition q =>
      by_cases htarget : m = id ∧ q = p
      · simp [confirms, htarget] at h
      · have hr : r = some r' := by simpa [confirms, htarget] using h
        rcases settled r' hr with hactive | ⟨hm, ⟨priority', hjoin⟩ | hleave⟩
        · exact hactive
        · cases hjoin
        · exact absurd ⟨hm, Action.leavePartition.inj hleave⟩ htarget
  | forceReconfigure q bootstrap =>
      by_cases htarget : m = id ∧ q = p
      · have howned : r.map (fun r => { r with status := .active }) = some r' := by
          simpa [confirms, htarget] using h
        rcases Option.map_eq_some_iff.1 howned with ⟨r₀, -, rfl⟩
        rfl
      · have hr : r = some r' := by simpa [confirms, htarget] using h
        simpa [MovesReplica] using settled r' hr
  | setPriority q priority =>
      -- A replica of another priority has the status of before.
      have hstatus : ∃ r₀, r = some r₀ ∧ r₀.status = r'.status := by
        by_cases htarget : m = id ∧ q = p
        · have hranked : r.map (fun r => { r with priority }) = some r' := by
            simpa [confirms, htarget] using h
          rcases Option.map_eq_some_iff.1 hranked with ⟨r₀, hr₀, rfl⟩
          exact ⟨r₀, hr₀, rfl⟩
        · exact ⟨r', by simpa [confirms, htarget] using h, rfl⟩
      rcases hstatus with ⟨r₀, hr₀, hsame⟩
      rw [← hsame]
      simpa [MovesReplica] using settled r₀ hr₀
  | overwriteHosts q hosts =>
      by_cases hq : q = p
      · have hlisted : ((Priorities.descending hosts)[id]?).map Replica.active = some r' := by
          simpa [confirms, hq] using h
        rcases Option.map_eq_some_iff.1 hlisted with ⟨priority, -, rfl⟩
        rfl
      · have hr : r = some r' := by simpa [confirms, hq] using h
        simpa [MovesReplica] using settled r' hr
  | joinCluster => simpa [MovesReplica] using settled r' h
  | leaveCluster => simpa [MovesReplica] using settled r' h

end Operation

/-! ## All is active but that -/

/-- All members and replicas are active but the one that the operation moves, if there is one. -/
structure Topology.ActiveBut (t : Topology) (op : Option Operation) : Prop where
  members : ∀ id s, t.status? id = some s → s = .active ∨ ∃ o, op = some o ∧ o.MovesMember id
  replicas : ∀ id p r, t.replica? id p = some r →
    r.status = .active ∨ ∃ o, op = some o ∧ o.MovesReplica id p

namespace Topology

variable {t t' : Topology} {op : Option Operation}

theorem AllActive.activeBut (h : t.AllActive) (op : Option Operation) : t.ActiveBut op :=
  ⟨fun id s hs => Or.inl (h.members id s hs), fun id p r hr => Or.inl (h.replicas id p r hr)⟩

theorem ActiveBut.allActive (h : t.ActiveBut none) : t.AllActive := by
  refine ⟨?_, ?_⟩
  · intro id s hs
    simpa using h.members id s hs
  · intro id p r hr
    simpa using h.replicas id p r hr

theorem AllActive.congr (h : t.AllActive) (hmembers : t.members = t'.members) :
    t'.AllActive := by
  refine ⟨?_, ?_⟩
  · intro id s hs
    exact h.members id s (by rwa [status?_congr hmembers])
  · intro id p r hr
    exact h.replicas id p r (by rwa [replica?_congr hmembers])

end Topology

namespace Ready

variable {settings : Settings} {t : Topology} {op : Operation} {prepared : Prepared}

/-- Marking puts nothing in transition but what the operation moves. -/
theorem activeBut_inProgress (ready : Ready settings t op prepared)
    (h : t.ActiveBut (some op)) :
    (prepared.inProgress.apply op.member t).ActiveBut (some op) := by
  refine ⟨?_, ?_⟩
  · intro id s hs
    rw [ready.status?_inProgress] at hs
    rcases op.marksStatus_eq_or_moves id (t.status? id) with hsame | hmoves
    · exact h.members id s (by rwa [hsame] at hs)
    · exact Or.inr ⟨op, rfl, hmoves⟩
  · intro id p r hr
    rw [ready.replica?_inProgress] at hr
    rcases op.marks_eq_or_moves id p (t.replica? id p) with hsame | hmoves
    · exact h.replicas id p r (by rwa [hsame] at hr)
    · exact Or.inr ⟨op, rfl, hmoves⟩

/-- Confirming an operation leaves nothing in transition. -/
theorem allActive_confirmed (ready : Ready settings t op prepared)
    (h : t.ActiveBut (some op)) : (prepared.confirmed.apply op.member t).AllActive := by
  refine ⟨?_, ?_⟩
  · intro id s hs
    rw [ready.status?_confirmed] at hs
    refine op.active_of_confirmsStatus id hs ?_
    intro s₀ hs₀
    simpa using h.members id s₀ hs₀
  · intro id p r hr
    rw [ready.replica?_confirmed] at hr
    refine op.active_of_confirms id p hr ?_
    intro r₀ hr₀
    simpa using h.replicas id p r₀ hr₀

end Ready

namespace Interleaving

variable {t t' : Topology} {s s' : Scene} {e : Event} {events : List Event}

/-! ## The driver where nothing is cancelled -/

/-- Coordinators handle requests for changes, real ones and dry runs, and the driver carries them
out. -/
def uncancelled : Party → Task → Prop
  | .driver, .advance _ => True
  | .coordinator _, .change .. => True
  | _, _ => False

theorem sharing_of_uncancelled {i : Party} {task : Task} (duty : uncancelled i task) :
    sharing i task := by
  cases i <;> cases task <;> first | exact duty.elim | trivial

/-- The driver works on an operation that is the next one still, and that passes its check. -/
structure Engaged (t : Topology) (id : Nat) (op : Operation) (prepared : Prepared) : Prop where
  next : Execution.isNext id op t
  ready : ∃ settings, Ready settings t op prepared

theorem Engaged.next?_eq {id : Nat} {op : Operation} {prepared : Prepared}
    (h : Engaged t id op prepared) : t.next? = some op := by
  rcases Execution.isNext_iff.1 h.next with ⟨c, rest, hpending, -, hremaining⟩
  exact Topology.next?_eq_some_iff.2 ⟨c, rest, hpending, hremaining⟩

/-- How far the driver has come on a store that holds `t`. -/
inductive Standing (t : Topology) (now : Int) : Process Result → Prop
  | reading {settings : Settings} {rest : Process Result}
      (h : rest = (Execution.advance settings now).map .advanced) : Standing t now rest
  | marking {id : Nat} {op : Operation} {prepared : Prepared}
      (engaged : Engaged t id op prepared) :
      Standing t now (Interleaving.marking now id op prepared)
  | calling {id : Nat} {op : Operation} {prepared : Prepared}
      (engaged : Engaged t id op prepared) :
      Standing t now (Interleaving.calling now id op prepared)
  | confirming {id : Nat} {op : Operation} {prepared : Prepared}
      (engaged : Engaged t id op prepared) :
      Standing t now (Interleaving.confirming now id op prepared)
  | finished (result : Result) : Standing t now (.done result)
  | refused (e : Failure) : Standing t now (.fail e)

theorem standing_of_read {settings : Settings} {now : Int} {next : Topology → Process Result}
    (h : .read next = (Execution.advance settings now).map Result.advanced) :
    Standing t now (next t) := by
  rcases cases_of_advance h t with ⟨result, hdone⟩ | ⟨e, hfail⟩ |
    ⟨c, op, rest, prepared, hpending, hremaining, hprepare, hmarking⟩
  · rw [hdone]
    exact .finished result
  · rw [hfail]
    exact .refused e
  · rw [hmarking]
    exact .marking ⟨Execution.isNext_iff.2 ⟨c, rest, hpending, rfl, hremaining⟩,
      settings, Operation.ready_of_prepare hprepare⟩

/-- Where nothing is pending the driver is not in the middle of an operation, so it stands as well
on any other topology. -/
theorem Standing.of_idle {now : Int} {rest : Process Result} (h : Standing t now rest)
    (idle : t.pending = none) : Standing t' now rest := by
  have hnone : ∀ {id op prepared}, ¬ Engaged t id op prepared := by
    intro id op prepared engaged
    rcases Execution.isNext_iff.1 engaged.next with ⟨c, -, hpending, -⟩
    simp [idle] at hpending
  cases h with
  | reading hrest => exact .reading hrest
  | marking engaged => exact absurd engaged hnone
  | calling engaged => exact absurd engaged hnone
  | confirming engaged => exact absurd engaged hnone
  | finished result => exact .finished result
  | refused e => exact .refused e

/-! ## Focused scenes -/

/-- Nothing is in transition but what the next operation moves, and the driver works on that one or
on none. -/
structure Focused (s : Scene) : Prop where
  keeping : Keeping uncancelled (fun _ => Task.Books) s
  stored : s.stored.ActiveBut s.stored.next?
  driver : ∀ c, s.busy .driver = some c → Standing s.stored c.now c.rest

/-- What the driver works on is the only operation that anything is in transition for. -/
theorem Focused.activeBut_of_engaged {id : Nat} {op : Operation} {prepared : Prepared}
    (h : Focused s) (engaged : Engaged s.stored id op prepared) :
    s.stored.ActiveBut (some op) := by
  have hactive := h.stored
  rwa [engaged.next?_eq] at hactive

theorem Focused.allActive_of_idle (h : Focused s) (idle : s.stored.pending = none) :
    s.stored.AllActive := by
  have hnone : s.stored.next? = none := by simp [Topology.next?, idle]
  have hactive := h.stored
  rw [hnone] at hactive
  exact hactive.allActive

theorem focused_start (active : t.AllActive) : Focused (.start t) := by
  refine ⟨keeping_start t, active.activeBut _, ?_⟩
  intro c hc
  simp at hc

/-- Coordinators write where nothing is pending only, and touch no member. -/
theorem Focused.coordinator_step {n : Nat} (h : Focused s) (step : Step uncancelled s e s')
    (party : e.party = .coordinator n) :
    s'.stored.ActiveBut s'.stored.next? ∧
      ∀ c, s.busy .driver = some c → Standing s'.stored c.now c.rest := by
  rcases step.stored_eq_or_wrote with hstored | ⟨i, task, rfl⟩
  · rw [hstored]
    exact ⟨h.stored, h.driver⟩
  · have hi : i = .coordinator n := party
    subst hi
    rcases h.keeping.wrote step with ⟨-, -, hduty, hbooks⟩
    cases task with
    | change settings dryRun planner =>
        rcases hbooks.1 with ⟨hidle, operations, -, -, hbegun⟩
        -- A change is begun where there is none, so the driver is not in the middle of one.
        have hmembers : s.stored.members = s'.stored.members := by
          rw [hbegun]
          rfl
        have hactive : s'.stored.AllActive := (h.allActive_of_idle hidle).congr hmembers
        exact ⟨hactive.activeBut _, fun c hc => (h.driver c hc).of_idle hidle⟩
    | _ => exact hduty.elim

/-- The driver sets the marks of the next operation and takes them back before that is any other
one. -/
theorem Focused.driver_step (h : Focused s) (step : Step uncancelled s e s')
    (party : e.party = .driver) :
    s'.stored.ActiveBut s'.stored.next? ∧
      ∀ c, s'.busy .driver = some c → Standing s'.stored c.now c.rest := by
  -- A driver that has ended its task stands nowhere.
  have hended : ∀ i, i = .driver →
      (s.set i none).stored.ActiveBut (s.set i none).stored.next? ∧
      ∀ c, (s.set i none).busy .driver = some c →
        Standing (s.set i none).stored c.now c.rest := by
    rintro i rfl
    refine ⟨h.stored, ?_⟩
    intro c hc
    simp at hc
  cases step with
  | @began i task now free duty =>
      have hi : i = .driver := party
      subst hi
      refine ⟨h.stored, ?_⟩
      intro c hc
      have hbegin : Session.begin task now = c := by simpa [Scene.busy_set] using hc
      subst hbegin
      cases task with
      | advance settings => exact .reading rfl
      | _ => exact duty.elim
  | @read i c next busy rest =>
      have hi : i = .driver := party
      subst hi
      have hstanding := h.driver c busy
      rw [rest] at hstanding
      refine ⟨h.stored, ?_⟩
      intro c' hc'
      have hread : { c with seen := some s.stored, rest := next s.stored } = c' := by
        simpa [Scene.busy_set] using hc'
      subst hread
      generalize hprocess : Process.read next = process at hstanding
      cases hstanding with
      | reading hrest => exact standing_of_read (hprocess.trans hrest)
      | _ => cases hprocess
  | @wrote i c revise next t busy rest revised =>
      have hi : i = .driver := party
      subst hi
      have hstanding := h.driver c busy
      rw [rest] at hstanding
      let goes : Session := { c with written := true, rest := next t }
      have hnew : ∀ c', (s.store .driver t goes).busy .driver = some c' → goes = c' := by
        intro c' hc'
        simpa [Scene.busy_store] using hc'
      generalize hprocess : Process.update revise next = process at hstanding
      cases hstanding with
      | reading hrest => simp [hrest, Execution.advance, Process.map] at hprocess
      | @marking id op prepared engaged =>
          -- First write.  The same operation stays the next one, and is ready to be resumed.
          rcases Process.update.inj hprocess with ⟨rfl, rfl⟩
          rcases Execution.starting_eq_ok_iff.1 revised with ⟨-, rfl⟩
          rcases engaged.ready with ⟨settings, ready⟩
          have hmarked : Engaged (prepared.inProgress.apply op.member s.stored) id op prepared := by
            refine ⟨?_, settings, ready.resume⟩
            simpa [Execution.isNext] using engaged.next
          refine ⟨?_, ?_⟩
          · simp only [Scene.stored_store, hmarked.next?_eq]
            exact ready.activeBut_inProgress (h.activeBut_of_engaged engaged)
          · intro c' hc'
            rw [← hnew c' hc']
            exact .calling hmarked
      | @confirming id op prepared engaged =>
          -- Second write.  Nobody has dropped the operation, so that all is active whatever the
          -- next one is.
          rcases Process.update.inj hprocess with ⟨rfl, rfl⟩
          rcases engaged.ready with ⟨settings, ready⟩
          have hmembers : (prepared.confirmed.apply op.member s.stored).members = t.members := by
            rcases Execution.finishing_eq_ok_iff.1 revised with
              ⟨change, tail, -, -, -, rfl⟩ | ⟨-, rfl⟩
            · simp
            · rfl
          have hactive : t.AllActive :=
            (ready.allActive_confirmed (h.activeBut_of_engaged engaged)).congr hmembers
          refine ⟨hactive.activeBut _, ?_⟩
          intro c' hc'
          rw [← hnew c' hc']
          exact .finished _
      | _ => cases hprocess
  | @called i c call next busy rest =>
      have hi : i = .driver := party
      subst hi
      have hstanding := h.driver c busy
      rw [rest] at hstanding
      refine ⟨h.stored, ?_⟩
      intro c' hc'
      have hcalled : { c with rest := next } = c' := by simpa [Scene.busy_set] using hc'
      subst hcalled
      generalize hprocess : Process.call call next = process at hstanding
      cases hstanding with
      | reading hrest => simp [hrest, Execution.advance, Process.map] at hprocess
      | calling engaged =>
          rcases Process.call.inj hprocess with ⟨-, rfl⟩
          exact .confirming engaged
      | _ => cases hprocess
  | rejected busy rest revised => exact hended _ party
  | refused busy rest => exact hended _ party
  | stopped busy => exact hended _ party
  | answered busy rest => exact hended _ party

theorem Focused.step (h : Focused s) (step : Step uncancelled s e s') : Focused s' := by
  have hkeeping : Keeping uncancelled (fun _ => Task.Books) s' :=
    h.keeping.step (fun _ _ now duty => revises_books now (sharing_of_uncancelled duty)) step
  cases hparty : e.party with
  | driver =>
      rcases h.driver_step step hparty with ⟨hstored, hdriver⟩
      exact ⟨hkeeping, hstored, hdriver⟩
  | coordinator n =>
      rcases h.coordinator_step step hparty with ⟨hstored, hdriver⟩
      refine ⟨hkeeping, hstored, ?_⟩
      intro c hc
      rw [step.busy_of_ne (by simp [hparty])] at hc
      exact hdriver c hc

/-! ## Transitions in every run -/

/-- Coordinators request changes and one driver carries them out, with any plans, in any order of
atomic steps and with failures and restarts at any point, from a topology in which all is active.
Then at any time

* a member that is not active is the one that the next operation takes into the cluster or out of
  it;
* a replica that is not active is the one that the next operation takes to its member or away from
  it;
* so all is active again whenever nothing is pending. -/
theorem only_next_moves {t₀ : Topology} (active : t₀.AllActive)
    (run : Run (Step uncancelled) (.start t₀) events s) :
    (∀ id status, s.stored.status? id = some status → status ≠ .active →
      ∃ op, s.stored.next? = some op ∧ op.member = id ∧
        (op.action = .joinCluster ∨ op.action = .leaveCluster)) ∧
    (∀ id p r, s.stored.replica? id p = some r → r.status ≠ .active →
      ∃ op, s.stored.next? = some op ∧ op.member = id ∧
        ((∃ priority, op.action = .joinPartition p priority) ∨ op.action = .leavePartition p)) ∧
    (s.stored.pending = none → s.stored.AllActive) := by
  have hfocused : Focused s := run.invariant (focused_start active) fun _ _ _ h step => h.step step
  refine ⟨?_, ?_, hfocused.allActive_of_idle⟩
  · intro id status hstatus hmoving
    exact (hfocused.stored.members id status hstatus).resolve_left hmoving
  · intro id p r hr hmoving
    exact (hfocused.stored.replicas id p r hr).resolve_left hmoving

/-- A third member comes in, and fails while it is told to host the partition.  The driver is
restarted after that. -/
def stalledJoin : List Choice :=
  let plan : Planner := .perform [⟨"c", .joinCluster⟩, ⟨"c", .joinPartition 1 3⟩,
    ⟨"a", .leavePartition 1⟩]
  [.begin (.coordinator 0) (.change {} false plan) 0, .go (.coordinator 0), .go (.coordinator 0),
    .begin .driver (.advance {}) 0, .go .driver, .go .driver, .go .driver, .go .driver, .go .driver,
    .begin .driver (.advance {}) 0, .go .driver, .go .driver, .stop .driver,
    .begin .driver (.advance {}) 0]

theorem only_next_moves_stalledJoin :
    pair.AllActive ∧ ∃ events s r, (Scene.start pair).follow stalledJoin = some (events, s) ∧
      s.stored.replica? "c" 1 = some r ∧ r.status = .joining ∧
      ∃ op, s.stored.next? = some op ∧ op.member = "c" ∧
        ((∃ priority, op.action = .joinPartition 1 priority) ∨ op.action = .leavePartition 1) := by
  refine ⟨allActive_pair, ?_⟩
  have hreplica : ((Scene.start pair).follow stalledJoin).map
      (fun r => r.2.stored.replica? "c" 1) = some (some (.joining 3)) := by
    decide +kernel
  have hpermitted : ∀ choice ∈ stalledJoin, choice.Permitted uncancelled := by
    simp [stalledJoin, Choice.Permitted, uncancelled]
  rcases hfollow : (Scene.start pair).follow stalledJoin with _ | ⟨events, s⟩
  · simp [hfollow] at hreplica
  · have hjoining : s.stored.replica? "c" 1 = some (.joining 3) := by
      simpa [hfollow] using hreplica
    have hmoves := (only_next_moves allActive_pair (run_of_follow hpermitted hfollow)).2.1 "c" 1
      (.joining 3) hjoining (by decide)
    exact ⟨events, s, .joining 3, rfl, hjoining, rfl, hmoves⟩

end Interleaving

end ReplicaCluster
