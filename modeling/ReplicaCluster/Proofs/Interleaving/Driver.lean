import ReplicaCluster.Proofs.Execution.Effects
import ReplicaCluster.Proofs.Interleaving.Guarantees

/-!
# One driver among coordinators

Coordinators touch the ledger only, so it is the driver alone that changes members.  What it has
checked when it read the topology therefore still holds when it marks the operation, and what it
has marked is still there when it confirms the operation: however long that takes, whatever is
cancelled or begun meanwhile, and even if the operation is no longer the next one by then.

`Sound` is the invariant that says so.  `Turn` is what it comes to: all that one step can do to
the members.
-/

namespace ReplicaCluster

namespace Interleaving

variable {good : Operation → Prop} {settings : Settings} {t t' : Topology} {op : Operation}
  {prepared : Prepared}

/-! ## Operations under way -/

/-- The operation has been marked as under way, and the members have not changed since. -/
def Underway (settings : Settings) (t : Topology) (op : Operation) (prepared : Prepared) : Prop :=
  ∃ t₀, Ready settings t₀ op prepared ∧
    t.members = (prepared.inProgress.apply op.member t₀).members

theorem Underway.ready (h : Underway settings t op prepared) : Ready settings t op prepared := by
  rcases h with ⟨t₀, hready, hmembers⟩
  exact hready.resume.congr hmembers.symm

theorem Underway.congr (h : Underway settings t op prepared) (hmembers : t.members = t'.members) :
    Underway settings t' op prepared := by
  rcases h with ⟨t₀, hready, hmarked⟩
  exact ⟨t₀, hready, hmembers.symm.trans hmarked⟩

/-! ## Stages of the driver -/

/-- How far the driver has come on a store that holds `t`, whether it has written yet, and what is
left for it to do. -/
inductive Stage (good : Operation → Prop) (settings : Settings) (t : Topology) (now : Int) :
    Bool → Process Result → Prop
  | reading {rest : Process Result} (h : rest = (Execution.advance settings now).map .advanced) :
      Stage good settings t now false rest
  | marking {id : Nat} {op : Operation} {prepared : Prepared} (sane : good op)
      (ready : Ready settings t op prepared) :
      Stage good settings t now false
        (.update (Execution.starting id op prepared) fun _ =>
          .call prepared.call <|
            .update (Execution.finishing now id op prepared) fun _ => .done (.advanced (some op)))
  | calling {id : Nat} {op : Operation} {prepared : Prepared} (sane : good op)
      (underway : Underway settings t op prepared) :
      Stage good settings t now true
        (.call prepared.call <|
          .update (Execution.finishing now id op prepared) fun _ => .done (.advanced (some op)))
  | confirming {id : Nat} {op : Operation} {prepared : Prepared} (sane : good op)
      (underway : Underway settings t op prepared) :
      Stage good settings t now true
        (.update (Execution.finishing now id op prepared) fun _ => .done (.advanced (some op)))
  | finished {written : Bool} (result : Result) : Stage good settings t now written (.done result)
  | refused {written : Bool} (e : Failure) : Stage good settings t now written (.fail e)

theorem Stage.congr {now : Int} {written : Bool} {rest : Process Result}
    (h : Stage good settings t now written rest) (hmembers : t.members = t'.members) :
    Stage good settings t' now written rest := by
  cases h with
  | reading hrest => exact .reading hrest
  | marking sane ready => exact .marking sane (ready.congr hmembers)
  | calling sane underway => exact .calling sane (underway.congr hmembers)
  | confirming sane underway => exact .confirming sane (underway.congr hmembers)
  | finished result => exact .finished result
  | refused e => exact .refused e

theorem stage_of_read {now : Int} {next : Topology → Process Result}
    (h : .read next = (Execution.advance settings now).map Result.advanced)
    (sane : ∀ op, t.next? = some op → good op) : Stage good settings t now false (next t) := by
  rcases cases_of_advance h t with ⟨result, hdone⟩ | ⟨e, hfail⟩ |
    ⟨c, op, rest, prepared, hpending, hremaining, hprepare, hmarking⟩
  · rw [hdone]
    exact .finished result
  · rw [hfail]
    exact .refused e
  · rw [hmarking]
    exact .marking (sane op (Topology.next?_eq_some_iff.2 ⟨c, rest, hpending, hremaining⟩))
      (Operation.ready_of_prepare hprepare)

/-! ## Turns -/

/-- What one step can do to the members. -/
inductive Turn (good : Operation → Prop) (settings : Settings) (s s' : Scene) : Prop
  | kept (members : s'.stored.members = s.stored.members)
  /-- The driver marks the next operation, which it has just found ready. -/
  | marked {c : Session} {op : Operation} {prepared : Prepared} (busy : s.busy .driver = some c)
      (unwritten : c.written = false) (sane : good op) (ready : Ready settings s.stored op prepared)
      (next : s.stored.next? = some op)
      (stored : s'.stored = prepared.inProgress.apply op.member s.stored)
  /-- The driver confirms the operation that it has marked. -/
  | confirmed {op : Operation} {prepared : Prepared} (sane : good op)
      (underway : Underway settings s.stored op prepared)
      (members : s'.stored.members = (prepared.confirmed.apply op.member s.stored).members)

/-! ## Soundness -/

def Guarantee (good : Operation → Prop) : Party → Task → Topology → Topology → Prop
  | .driver, _ => Topology.Proceeds
  | .coordinator _, _ => Topology.Admits good

/-- The driver advances changes, and coordinators do no more than begin and cancel them. -/
structure Disciplined (duties : Party → Task → Prop) (good : Operation → Prop)
    (settings : Settings) : Prop where
  driver : ∀ task, duties .driver task → task = .advance settings
  coordinator : ∀ n task now, duties (.coordinator n) task →
    (task.process now).Revises (Topology.Admits good)

/-- The scenes that parties of discipline get into. -/
structure Sound (duties : Party → Task → Prop) (good : Operation → Prop) (settings : Settings)
    (s : Scene) : Prop where
  keeping : Keeping duties (Guarantee good) s
  pending : ∀ c, s.stored.pending = some c → ∀ op ∈ c.remaining, good op
  driver : ∀ c, s.busy .driver = some c → Stage good settings s.stored c.now c.written c.rest

variable {duties : Party → Task → Prop} {s s' : Scene} {e : Event} {events : List Event}

theorem sound_start (sane : ∀ c, t.pending = some c → ∀ op ∈ c.remaining, good op) :
    Sound duties good settings (.start t) := by
  refine ⟨keeping_start t, sane, ?_⟩
  intro c hc
  simp at hc

theorem Disciplined.guaranteed (discipline : Disciplined duties good settings) {i : Party}
    {task : Task} (now : Int) (duty : duties i task) :
    (task.process now).Revises (Guarantee good i task) := by
  cases i with
  | driver =>
      rw [discipline.driver task duty]
      exact ((Execution.revises_advance settings now).map _).mono fun t t' h => h.1
  | coordinator n => exact discipline.coordinator n task now duty

theorem good_of_guarantee {i : Party} {task : Task} (h : Guarantee good i task t t')
    (sane : ∀ c, t.pending = some c → ∀ op ∈ c.remaining, good op) :
    ∀ c, t'.pending = some c → ∀ op ∈ c.remaining, good op := by
  cases i with
  | driver => exact Topology.Proceeds.forall_pending h sane
  | coordinator n => exact Topology.Admits.forall_pending h

theorem members_eq_of_admits (h : t.Admits good t') : t'.members = t.members := by
  rcases h with ⟨-, operations, -, -, rfl⟩ | ⟨c, now, hpending, rfl⟩
  · rfl
  · simp [Topology.cancelChange, hpending]

theorem Sound.members_of_coordinator {n : Nat} (h : Sound duties good settings s)
    (step : Step duties s e s') (party : e.party = .coordinator n) :
    s'.stored.members = s.stored.members := by
  rcases step.stored_eq_or_wrote with hstored | ⟨i, task, rfl⟩
  · rw [hstored]
  · have hi : i = .coordinator n := party
    subst hi
    exact members_eq_of_admits (h.keeping.wrote step).2.2.2

/-- Each step takes the driver from one stage to the next, and changes members by its two writes
only. -/
theorem Sound.driver_step (discipline : Disciplined duties good settings)
    (h : Sound duties good settings s) (step : Step duties s e s') (party : e.party = .driver) :
    (∀ c, s'.busy .driver = some c → Stage good settings s'.stored c.now c.written c.rest) ∧
      Turn good settings s s' := by
  -- A driver that has ended its task is at no stage at all.
  have hended : ∀ i, i = .driver →
      (∀ c, (s.set i none).busy .driver = some c →
        Stage good settings (s.set i none).stored c.now c.written c.rest) ∧
      Turn good settings s (s.set i none) := by
    rintro i rfl
    refine ⟨?_, .kept rfl⟩
    intro c hc
    simp at hc
  cases step with
  | @began i task now free duty =>
      have hi : i = .driver := party
      subst hi
      refine ⟨?_, .kept rfl⟩
      intro c hc
      have hbegin : Session.begin task now = c := by simpa [Scene.busy_set] using hc
      subst hbegin
      rw [discipline.driver task duty]
      exact .reading rfl
  | @read i c next busy rest =>
      have hi : i = .driver := party
      subst hi
      have hstage := h.driver c busy
      rw [rest] at hstage
      refine ⟨?_, .kept rfl⟩
      intro c' hc'
      have hread : { c with seen := some s.stored, rest := next s.stored } = c' := by
        simpa [Scene.busy_set] using hc'
      subst hread
      generalize hwritten : c.written = written at hstage
      cases hstage with
      | reading hrest =>
          -- The operation that is prepared is one of the pending change, hence good.
          refine stage_of_read hrest ?_
          intro op hop
          rcases Topology.next?_eq_some_iff.1 hop with ⟨change, tail, hpending, hremaining⟩
          exact h.pending change hpending op (by simp [hremaining])
  | @wrote i c revise next t busy rest revised =>
      have hi : i = .driver := party
      subst hi
      have hstage := h.driver c busy
      rw [rest] at hstage
      let goes : Session := { c with written := true, rest := next t }
      have hnew : ∀ c', (s.store .driver t goes).busy .driver = some c' → goes = c' := by
        intro c' hc'
        simpa [Scene.busy_store] using hc'
      generalize hwritten : c.written = written at hstage
      cases hstage with
      | reading hrest => simp [Execution.advance, Process.map] at hrest
      | marking sane ready =>
          -- First write.  The operation is ready still, and from here on under way.
          rcases Execution.starting_eq_ok_iff.1 revised with ⟨hnext, rfl⟩
          rcases Execution.isNext_iff.1 hnext with ⟨change, tail, hpending, -, hremaining⟩
          refine ⟨?_, .marked busy hwritten sane ready
            (Topology.next?_eq_some_iff.2 ⟨change, tail, hpending, hremaining⟩) rfl⟩
          intro c' hc'
          rw [← hnew c' hc']
          exact .calling sane ⟨s.stored, ready, rfl⟩
      | @confirming id op prepared sane underway =>
          -- Second write.  It does the same to the members whether or not the operation is still
          -- the next one.
          have hmembers : t.members = (prepared.confirmed.apply op.member s.stored).members := by
            rcases Execution.finishing_eq_ok_iff.1 revised with
              ⟨change, tail, -, -, -, rfl⟩ | ⟨-, rfl⟩
            · simp
            · rfl
          refine ⟨?_, .confirmed sane underway hmembers⟩
          intro c' hc'
          rw [← hnew c' hc']
          exact .finished _
  | @called i c call next busy rest =>
      have hi : i = .driver := party
      subst hi
      have hstage := h.driver c busy
      rw [rest] at hstage
      refine ⟨?_, .kept rfl⟩
      intro c' hc'
      have hcalled : { c with rest := next } = c' := by simpa [Scene.busy_set] using hc'
      subst hcalled
      generalize hwritten : c.written = written at hstage
      cases hstage with
      | reading hrest => simp [Execution.advance, Process.map] at hrest
      | calling sane underway =>
          exact .confirming sane underway
  | rejected busy rest revised => exact hended _ party
  | refused busy rest => exact hended _ party
  | stopped busy => exact hended _ party
  | answered busy rest => exact hended _ party

/-- Every step of parties of discipline leads to a sound scene again, by a turn. -/
theorem Sound.step (discipline : Disciplined duties good settings)
    (h : Sound duties good settings s) (step : Step duties s e s') :
    Sound duties good settings s' ∧ Turn good settings s s' := by
  have hkeeping : Keeping duties (Guarantee good) s' :=
    h.keeping.step (fun _ _ now duty => discipline.guaranteed now duty) step
  have hpending : ∀ c, s'.stored.pending = some c → ∀ op ∈ c.remaining, good op := by
    rcases step.stored_eq_or_wrote with hstored | ⟨i, task, rfl⟩
    · rw [hstored]
      exact h.pending
    · exact good_of_guarantee (h.keeping.wrote step).2.2.2 h.pending
  cases hparty : e.party with
  | driver =>
      rcases h.driver_step discipline step hparty with ⟨hdriver, hturn⟩
      exact ⟨⟨hkeeping, hpending, hdriver⟩, hturn⟩
  | coordinator n =>
      have hmembers := h.members_of_coordinator step hparty
      refine ⟨⟨hkeeping, hpending, ?_⟩, .kept hmembers⟩
      intro c hc
      -- The driver stands where it stood: coordinators touch neither it nor the members.
      rw [step.busy_of_ne (by simp [hparty])] at hc
      exact (h.driver c hc).congr hmembers.symm

theorem sound_run_of_pending (discipline : Disciplined duties good settings)
    (sane : ∀ c, t.pending = some c → ∀ op ∈ c.remaining, good op)
    (run : Run (Step duties) (.start t) events s) : Sound duties good settings s :=
  run.invariant (sound_start sane) fun _ _ _ h step => (h.step discipline step).1

theorem sound_run (discipline : Disciplined duties good settings) (idle : t.pending = none)
    (run : Run (Step duties) (.start t) events s) : Sound duties good settings s :=
  sound_run_of_pending discipline (by simp [idle]) run

/-- What holds at the start, and is preserved by every turn, holds throughout a run. -/
theorem holds_of_turns {p : Topology → Prop} (discipline : Disciplined duties good settings)
    (idle : t.pending = none) (init : p t)
    (preserved : ∀ s s', Turn good settings s s' → p s.stored → p s'.stored)
    (run : Run (Step duties) (.start t) events s) : p s.stored := by
  induction run with
  | refl => exact init
  | tail run last ih =>
      have hturn := ((sound_run discipline idle run).step discipline last).2
      exact preserved _ _ hturn ih

end Interleaving

end ReplicaCluster
