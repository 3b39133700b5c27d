import ReplicaCluster.Proofs.Interleaving.Errand

/-!
# Cancelling between operations

A cancel is decided on the stored topology of its one write.  After that write the driver may still
be at work for the cancelled change, with an operation that it has marked before.  It carries that
operation to its end, by one call and one write at most, and begins no other one.  The late write
leaves the ledger alone, even if another change has been begun whose first operation is the same
(`cancel_between_operations`).
-/

namespace ReplicaCluster

theorem Coordinator.cancelling_eq_ok_iff {now : Int} {id : Nat} {t t' : Topology} :
    cancelling now id t = .ok t' ↔
      t.initialized ∧ ∃ c, t.pending = some c ∧ c.id = id ∧
        t' = { t with
          version := t.version + 1
          pending := none
          lastChange := some ⟨id, .cancelled, c.done, now⟩ } := by
  by_cases hinit : t.initialized
  · cases hpending : t.pending with
    | none => simp [cancelling, hinit, hpending]
    | some c =>
        by_cases hid : c.id = id
        · simp [cancelling, hinit, hpending, hid, Topology.cancelChange, eq_comm]
        · simp [cancelling, hinit, hpending, hid]
  · simp [cancelling, hinit]

namespace Interleaving

variable {t₀ t t' : Topology} {s s' : Scene} {e : Event} {before events later : List Event}
  {id : Nat} {w : Watch}

/-! ## When a cancel succeeds -/

/-- A cancel has one step, the write that decides it. -/
def Session.Cancels (c : Session) : Prop :=
  ∀ id, c.task = .cancel id →
    (∃ result, c.rest = .done result) ∨
      ∃ next, c.rest = .update (Coordinator.cancelling c.now id) next ∧
        ∀ t, ∃ result, next t = .done result

theorem cancels_step {duties : Party → Task → Prop} (h : ∀ i c, s.busy i = some c → c.Cancels)
    (step : Step duties s e s') : ∀ i c, s'.busy i = some c → c.Cancels := by
  refine step.forall_busy (p := fun _ c => c.Cancels) h ?_ ?_ ?_ ?_
  · intro i task now duty id htask
    have hcancel : task = .cancel id := htask
    subst hcancel
    exact Or.inr ⟨_, rfl, fun t => ⟨_, rfl⟩⟩
  · intro i c next t hc hrest id htask
    rcases hc id htask with ⟨result, hdone⟩ | ⟨next', hupdate, -⟩
    · simp [hrest] at hdone
    · simp [hrest] at hupdate
  · intro i c revise next t hc hrest id htask
    rcases hc id htask with ⟨result, hdone⟩ | ⟨next', hupdate, hlast⟩
    · simp [hrest] at hdone
    · have hsame : revise = Coordinator.cancelling c.now id ∧ next = next' := by
        simpa [hrest] using hupdate
      rcases hlast t with ⟨result, hresult⟩
      exact Or.inl ⟨result, by simpa [hsame.2] using hresult⟩
  · intro i c call next hc hrest id htask
    rcases hc id htask with ⟨result, hdone⟩ | ⟨next', hupdate, -⟩
    · simp [hrest] at hdone
    · simp [hrest] at hupdate

theorem Step.exists_revise {duties : Party → Task → Prop} {i : Party} {task : Task}
    (step : Step duties s (.wrote i task t t') s') :
    ∃ c revise next, s.busy i = some c ∧ c.task = task ∧ c.rest = .update revise next ∧
      revise t = .ok t' := by
  cases step with
  | wrote busy rest revised => exact ⟨_, _, _, busy, rfl, rest, revised⟩

theorem cancelling_of_wrote {duties : Party → Task → Prop} {i : Party}
    (h : ∀ i c, s.busy i = some c → c.Cancels) (step : Step duties s (.wrote i (.cancel id) t t') s') :
    ∃ now, Coordinator.cancelling now id t = .ok t' := by
  rcases step.exists_revise with ⟨c, revise, next, hbusy, htask, hrest, hrevised⟩
  rcases h i c hbusy id htask with ⟨result, hdone⟩ | ⟨next', hupdate, -⟩
  · simp [hrest] at hdone
  · have hsame : revise = Coordinator.cancelling c.now id ∧ next = next' := by
      simpa [hrest] using hupdate
    exact ⟨c.now, by simpa [hsame.1] using hrevised⟩

/-! ## The plan of the pending change -/

/-- The change was pending at the start or has been committed since, with this plan. -/
def Planned (t₀ : Topology) (events : List Event) (id : Nat) (plan : List Operation) : Prop :=
  (∃ c, t₀.pending = some c ∧ c.id = id ∧ c.operations = plan) ∨
    ∃ i settings dryRun planner t t',
      .wrote i (.change settings dryRun planner) t t' ∈ events ∧
        t'.pending = some (.start id plan)

theorem Planned.append {plan : List Operation} (h : Planned t₀ events id plan) (e : Event) :
    Planned t₀ (events ++ [e]) id plan := by
  rcases h with hstart | ⟨i, settings, dryRun, planner, t, t', hmem, hpending⟩
  · exact Or.inl hstart
  · exact Or.inr
      ⟨i, settings, dryRun, planner, t, t', List.mem_append_left _ hmem, hpending⟩

theorem planned_run (run : Run (Step sharing) (.start t₀) events s) :
    ∀ c, s.stored.pending = some c → Planned t₀ events c.id c.operations := by
  induction run with
  | refl =>
      intro c hc
      exact Or.inl ⟨c, hc, rfl, rfl⟩
  | @tail events s₁ s₂ e run last ih =>
      intro c hc
      rcases last.stored_eq_or_wrote with hstored | ⟨i, task, rfl⟩
      · exact (ih c (by simpa [hstored] using hc)).append e
      · have hkeeping := keeping_run run (keeping_start t₀)
        have hbooks := (hkeeping.wrote last).2.2.2
        cases task with
        | change settings dryRun planner =>
            rcases hbooks.1 with ⟨-, operations, -, -, hbegun⟩
            have hstart : PendingChange.start s₁.stored.nextChangeId operations = c := by
              simpa [hbegun, Topology.begun] using hc
            refine Or.inr ⟨i, settings, dryRun, planner, _, _, List.mem_concat_self, ?_⟩
            simp [hbegun, Topology.begun, ← hstart, PendingChange.start,
              PendingChange.operations]
        | cancel id =>
            rcases hbooks.1 with ⟨c', now, hpending, hcancelled⟩
            simp [hcancelled, Topology.cancelChange, hpending] at hc
        | advance settings =>
            -- An advance moves an operation within the plan.
            rcases hbooks.1 with ⟨hsame, -⟩ | ⟨c', hpending, ⟨hadvance, -⟩ | ⟨now, hnone, -⟩⟩
            · exact (ih c (by simpa [hsame] using hc)).append _
            · have hc' : c'.advance = c := by simpa [hadvance] using hc
              have hplanned := (ih c' hpending).append
                (.wrote i (.advance settings) s₁.stored s₂.stored)
              simpa [← hc'] using hplanned
            · simp [hnone] at hc
        | manage settings request => exact hbooks.elim

/-! ## After a cancel -/

/-- The change has ended, and so have those before it. -/
structure Beyond (id : Nat) (t : Topology) : Prop where
  last : ∃ c, t.lastChange = some c ∧ id ≤ c.id
  pending : ∀ c, t.pending = some c → id < c.id

theorem Beyond.not_next {op : Operation} (h : Beyond id t) : ¬ Execution.isNext id op t := by
  intro hnext
  rcases Execution.isNext_iff.1 hnext with ⟨c, rest, hpending, hid, -⟩
  have hlater := h.pending c hpending
  omega

theorem Beyond.errand_ne (h : Beyond id t) (op : Operation) : t.errand? ≠ some (id, op) := by
  intro herrand
  simp only [Topology.errand?, Option.bind_eq_some_iff, Option.map_eq_some_iff, Prod.mk.injEq]
    at herrand
  rcases herrand with ⟨c, hpending, -, -, hid, -⟩
  have hlater := h.pending c hpending
  omega

theorem beyond_of_cancel {now : Int} (h : Coordinator.cancelling now id t = .ok t') :
    Beyond id t' := by
  rcases Coordinator.cancelling_eq_ok_iff.1 h with ⟨-, c, -, -, rfl⟩
  exact ⟨⟨_, rfl, le_rfl⟩, by simp⟩

/-- Later changes have later numbers. -/
theorem Beyond.begins {good : Operation → Prop} (h : Beyond id t) (begins : t.Begins good t') :
    Beyond id t' := by
  rcases h with ⟨⟨r, hlast, hr⟩, -⟩
  rcases begins with ⟨-, operations, -, -, rfl⟩
  refine ⟨⟨r, hlast, hr⟩, ?_⟩
  intro c hc
  have hstart : PendingChange.start t.nextChangeId operations = c := by
    simpa [Topology.begun] using hc
  have hid : r.id + 1 = c.id := by
    simp [← hstart, PendingChange.start, Topology.nextChangeId, hlast]
  omega

theorem beyond_of_cancels (cancels : t.Cancels t') (reached : ∀ c, t.pending = some c → id ≤ c.id) :
    Beyond id t' := by
  rcases cancels with ⟨c, now, hpending, rfl⟩
  refine ⟨⟨⟨c.id, .cancelled, c.done, now⟩, ?_, reached c hpending⟩, ?_⟩
  · simp [Topology.cancelChange, hpending]
  · simp [Topology.cancelChange, hpending]

theorem Beyond.cancels (h : Beyond id t) (cancels : t.Cancels t') : Beyond id t' :=
  beyond_of_cancels cancels fun c hc => (h.pending c hc).le

theorem Beyond.proceeds (h : Beyond id t) (proceeds : t.Proceeds t') : Beyond id t' := by
  rcases h with ⟨⟨r, hlast, hr⟩, hlater⟩
  rcases proceeds with ⟨hsame, hkept⟩ | ⟨c, hpending, hproceeds⟩
  · exact ⟨⟨r, by rw [hkept, hlast], hr⟩, fun c hc => hlater c (by rw [← hsame, hc])⟩
  · have hc := hlater c hpending
    rcases hproceeds with ⟨hadvance, hkept⟩ | ⟨now, hnone, hended⟩
    · refine ⟨⟨r, by rw [hkept, hlast], hr⟩, ?_⟩
      intro c' hc'
      have hsame : c.advance = c' := by simpa [hadvance] using hc'
      simpa [← hsame] using hc
    · exact ⟨⟨_, hended, hc.le⟩, by simp [hnone]⟩

theorem Beyond.books {task : Task} (h : Beyond id t) (books : task.Books t t') : Beyond id t' := by
  cases task with
  | change settings dryRun planner => exact h.begins books.1
  | cancel other => exact h.cancels books.1
  | advance settings => exact h.proceeds books.1
  | manage settings request => exact books.elim

theorem Beyond.step (h : Beyond id s.stored) (keeping : Keeping sharing (fun _ => Task.Books) s)
    (step : Step sharing s e s') : Beyond id s'.stored := by
  rcases step.stored_eq_or_wrote with hstored | ⟨i, task, rfl⟩
  · rwa [hstored]
  · exact h.books (keeping.wrote step).2.2.2

/-- What the driver may still carry out for a change that has ended: a call and a write, for one
operation that it had marked before. -/
def Acted (before : List Event) (id : Nat) (trail : List Event) : Prop :=
  trail = [] ∨
    ∃ op prepared called confirmed, Marked before id op prepared ∧ trail = called ++ confirmed ∧
      (called = [] ∨ called = [.called .driver prepared.call]) ∧
      (confirmed = [] ∨
        ∃ task t, confirmed = [.wrote .driver task t (prepared.confirmed.apply op.member t)])

/-- A failure comes last. -/
def Settled (before : List Event) (id : Nat) (trail : List Event) : Prop :=
  ∃ acts stopped, trail = acts ++ stopped ∧ Acted before id acts ∧
    (stopped = [] ∨ stopped = [.stopped .driver])

theorem Acted.settled {trail : List Event} (h : Acted before id trail) : Settled before id trail :=
  ⟨trail, [], by simp, h, Or.inl rfl⟩

theorem Acted.stopped {trail : List Event} (h : Acted before id trail) (w : Watch) :
    Settled before id (trail ++ [.stopped .driver].filter (w.attributes id)) := by
  refine ⟨trail, _, rfl, h, ?_⟩
  cases hmine : w.attributes id (.stopped .driver) with
  | false => exact Or.inl (by simp [hmine])
  | true => exact Or.inr (by simp [hmine])

theorem acted_nil : Acted before id [] := Or.inl rfl

theorem acted_called {op : Operation} {prepared : Prepared} {called : List Event}
    (marked : Marked before id op prepared)
    (h : called = [] ∨ called = [.called .driver prepared.call]) : Acted before id called :=
  Or.inr ⟨op, prepared, called, [], marked, by simp, h, Or.inl rfl⟩

/-- What the driver is busy with, after the given trail. -/
inductive Late (before : List Event) (id : Nat) : List Event → Option Session → Prop
  | free {trail : List Event} (settled : Settled before id trail) : Late before id trail none
  | elsewhere {trail : List Event} {c : Session} (settled : Settled before id trail)
      (other : ∀ op, c.errand? ≠ some (id, op)) : Late before id trail (some c)
  | marking {c : Session} {op : Operation} {prepared : Prepared}
      (rest : c.rest = marking c.now id op prepared) : Late before id [] (some c)
  | calling {c : Session} {op : Operation} {prepared : Prepared}
      (marked : Marked before id op prepared) (rest : c.rest = calling c.now id op prepared) :
      Late before id [] (some c)
  | confirming {trail : List Event} {c : Session} {op : Operation} {prepared : Prepared}
      (marked : Marked before id op prepared) (rest : c.rest = confirming c.now id op prepared)
      (called : trail = [] ∨ trail = [.called .driver prepared.call]) :
      Late before id trail (some c)
  | finished {trail : List Event} {c : Session} (acted : Acted before id trail)
      (rest : (∃ result, c.rest = .done result) ∨ ∃ e, c.rest = .fail e) :
      Late before id trail (some c)

theorem Late.settled {trail : List Event} {session : Option Session}
    (h : Late before id trail session) : Settled before id trail := by
  cases h with
  | free settled => exact settled
  | elsewhere settled other => exact settled
  | marking rest => exact acted_nil.settled
  | calling marked rest => exact acted_nil.settled
  | confirming marked rest called => exact (acted_called marked called).settled
  | finished acted rest => exact acted.settled

theorem late_of_inPhase (h : InPhase before s) : Late before id [] (s.busy .driver) := by
  cases hbusy : s.busy .driver with
  | none => exact .free acted_nil.settled
  | some c =>
      by_cases hown : ∃ op, c.errand? = some (id, op)
      · rcases hown with ⟨op, herrand⟩
        have hphase := h c hbusy
        rw [herrand] at hphase
        generalize hrest : c.rest = rest at hphase
        cases hphase with
        | marking ready => exact .marking hrest
        | calling marked => exact .calling marked hrest
        | confirming marked => exact .confirming marked hrest (Or.inl rfl)
        | done result => exact .finished acted_nil (Or.inl ⟨result, hrest⟩)
        | fail e => exact .finished acted_nil (Or.inr ⟨e, hrest⟩)
      · exact .elsewhere acted_nil.settled fun op herrand => hown ⟨op, herrand⟩

theorem Late.wrote {trail : List Event} {c : Session} {revise : Revision}
    {next : Topology → Process Result} (h : Late before id trail (some c))
    (errand : c.errand? = w.errand) (beyond : Beyond id t) (rest : c.rest = .update revise next)
    (revised : revise t = .ok t') :
    Late before id (trail ++ [.wrote .driver c.task t t'].filter (w.attributes id))
      (some { c with written := true, rest := next t' }) := by
  cases h with
  | elsewhere settled other =>
      have hother : ∀ op, w.errand ≠ some (id, op) := fun op => by simpa [errand] using other op
      have hnone := Watch.attributes_eq_false_of_ne hother (.wrote .driver c.task t t')
      simpa [hnone] using
        Late.elsewhere (c := { c with written := true, rest := next t' }) settled other
  | @marking c op prepared hrest =>
      -- The change is not pending any more, so its operation is refused.
      have hboth := rest.symm.trans hrest
      simp only [Interleaving.marking, Process.update.injEq] at hboth
      rw [hboth.1] at revised
      exact absurd (Execution.starting_eq_ok_iff.1 revised).1 beyond.not_next
  | calling marked hrest =>
      have hboth := rest.symm.trans hrest
      simp [Interleaving.calling] at hboth
  | @confirming _ c op prepared marked hrest called =>
      have hboth := rest.symm.trans hrest
      simp only [Interleaving.confirming, Process.update.injEq] at hboth
      rcases hboth with ⟨hrevise, hnext⟩
      have hconfirmed : t' = prepared.confirmed.apply op.member t := by
        rw [hrevise] at revised
        rcases Execution.finishing_eq_ok_iff.1 revised with
          ⟨change, tail, hpending, hid, hremaining, -⟩ | ⟨-, ht'⟩
        · exact absurd (Execution.isNext_iff.2 ⟨change, tail, hpending, hid, hremaining⟩)
            beyond.not_next
        · exact ht'
      subst hconfirmed
      refine .finished (Or.inr ⟨op, prepared, _, _, marked, rfl, called, ?_⟩)
        (Or.inl ⟨_, by rw [hnext]⟩)
      cases hmine : w.attributes id
          (.wrote .driver c.task t (prepared.confirmed.apply op.member t)) with
      | false => exact Or.inl (by simp [hmine])
      | true => exact Or.inr ⟨c.task, t, by simp [hmine]⟩
  | finished acted hrest => simp [rest] at hrest

theorem Late.called {trail : List Event} {c : Session} {call : Call} {next : Process Result}
    (h : Late before id trail (some c)) (errand : c.errand? = w.errand)
    (rest : c.rest = .call call next) :
    Late before id (trail ++ [.called .driver call].filter (w.attributes id))
      (some { c with rest := next }) := by
  cases h with
  | elsewhere settled other =>
      have hother : ∀ op, w.errand ≠ some (id, op) := fun op => by simpa [errand] using other op
      have hnone := Watch.attributes_eq_false_of_ne hother (.called .driver call)
      simpa [hnone] using Late.elsewhere (c := { c with rest := next }) settled other
  | marking hrest =>
      have hboth := rest.symm.trans hrest
      simp [Interleaving.marking] at hboth
  | @calling c op prepared marked hrest =>
      have hboth := rest.symm.trans hrest
      simp only [Interleaving.calling, Process.call.injEq] at hboth
      rcases hboth with ⟨rfl, rfl⟩
      refine .confirming marked rfl ?_
      cases hmine : w.attributes id (.called .driver prepared.call) with
      | false => exact Or.inl (by simp [hmine])
      | true => exact Or.inr (by simp [hmine])
  | confirming marked hrest called =>
      have hboth := rest.symm.trans hrest
      simp [Interleaving.confirming] at hboth
  | finished acted hrest => simp [rest] at hrest

/-- Nothing but a failure has stopped the driver before, on an errand for the change. -/
theorem Late.stopped {trail : List Event} {c : Session} (h : Late before id trail (some c))
    (errand : c.errand? = w.errand) :
    Settled before id (trail ++ [.stopped .driver].filter (w.attributes id)) := by
  cases h with
  | elsewhere settled other =>
      have hother : ∀ op, w.errand ≠ some (id, op) := fun op => by simpa [errand] using other op
      have hnone := Watch.attributes_eq_false_of_ne hother (.stopped .driver)
      simpa [hnone] using settled
  | marking rest => exact acted_nil.stopped w
  | calling marked rest => exact acted_nil.stopped w
  | confirming marked rest called => exact (acted_called marked called).stopped w
  | finished acted rest => exact acted.stopped w

/-- A driver that is about to call for the change has done nothing for it since. -/
theorem Late.about_to_call {trail : List Event} {c : Session} {op : Operation} {call : Call}
    {next : Process Result} (h : Late before id trail (some c)) (errand : c.errand? = some (id, op))
    (rest : c.rest = .call call next) :
    trail = [] ∧ ∃ op prepared, Marked before id op prepared ∧ call = prepared.call := by
  cases h with
  | elsewhere settled other => exact absurd errand (other op)
  | marking hrest =>
      have hboth := rest.symm.trans hrest
      simp [Interleaving.marking] at hboth
  | @calling c op' prepared marked hrest =>
      have hboth := rest.symm.trans hrest
      simp only [Interleaving.calling, Process.call.injEq] at hboth
      exact ⟨rfl, op', prepared, marked, hboth.1⟩
  | confirming marked hrest called =>
      have hboth := rest.symm.trans hrest
      simp [Interleaving.confirming] at hboth
  | finished acted hrest => simp [rest] at hrest

/-- An act of the driver adds to the trail if it is on an errand for the change, and nothing else
does. -/
theorem Late.step {trail : List Event} (h : Late before id trail (s.busy .driver))
    (watched : Watched w s) (beyond : Beyond id s.stored) (step : Step sharing s e s') :
    Late before id (trail ++ [e].filter (w.attributes id)) (s'.busy .driver) := by
  by_cases hdriver : e.party = .driver
  · -- What ends the driver's task adds nothing.
    have hended : ∀ i, i = Party.driver → e.acts = false →
        Late before id (trail ++ [e].filter (w.attributes id)) ((s.set i none).busy .driver) := by
      rintro i rfl hidle
      have hnone : [e].filter (w.attributes id) = [] := by simp [Watch.attributes, hidle]
      simpa [Scene.busy_set, hnone] using Late.free h.settled
    cases step with
    | @began i task now free duty =>
        have hi : i = .driver := hdriver
        subst hi
        simpa [Scene.busy_set, Watch.attributes, Event.acts] using
          Late.elsewhere (c := .begin task now) h.settled fun op => by
            simp [Session.errand?, Session.begin]
    | @read i c next busy rest =>
        have hi : i = .driver := hdriver
        subst hi
        -- What is pending now is another change.
        have hother : ∀ op, ({ c with seen := some s.stored, rest := next s.stored } :
            Session).errand? ≠ some (id, op) := beyond.errand_ne
        simpa [Scene.busy_set, Watch.attributes, Event.acts] using
          Late.elsewhere h.settled hother
    | @wrote i c revise next t busy rest revised =>
        have hi : i = .driver := hdriver
        subst hi
        rw [busy] at h
        simpa [Scene.busy_store] using h.wrote (watched.errand c busy) beyond rest revised
    | @called i c call next busy rest =>
        have hi : i = .driver := hdriver
        subst hi
        rw [busy] at h
        simpa [Scene.busy_set] using h.called (watched.errand c busy) rest
    | rejected busy rest revised => exact hended _ hdriver rfl
    | refused busy rest => exact hended _ hdriver rfl
    | @stopped i c busy =>
        have hi : i = .driver := hdriver
        subst hi
        rw [busy] at h
        simpa [Scene.busy_set] using Late.free (h.stopped (watched.errand c busy))
    | answered busy rest => exact hended _ hdriver rfl
  · have hsame := step.busy_of_ne (i := .driver) fun h => hdriver h.symm
    have hnone : [e].filter (w.attributes id) = [] := by simp [Watch.attributes, hdriver]
    simpa [hsame, hnone] using h

theorem late_run (watched : Watched w s) (keeping : Keeping sharing (fun _ => Task.Books) s)
    (beyond : Beyond id s.stored) (late : Late before id [] (s.busy .driver))
    (run : Run (Step sharing) s later s') :
    Watched (later.foldl Watch.see w) s' ∧ Beyond id s'.stored ∧
      Late before id (w.footprint id later) (s'.busy .driver) := by
  induction run with
  | refl => exact ⟨watched, beyond, late⟩
  | @tail later s₁ s₂ e run last ih =>
      rcases ih with ⟨hwatched, hbeyond, hlate⟩
      refine ⟨by simpa using hwatched.step last, hbeyond.step (keeping_run run keeping) last, ?_⟩
      rw [Watch.footprint_append]
      exact hlate.step hwatched hbeyond last

/-- Coordinators request and cancel changes, and one driver carries them out, in whatever order
their steps come.  At every moment of such a run,

* a cancel that has not been answered is about to write, and succeeds just if the stored topology is
  initialized and its pending change has the number given; it then ends that change with what has
  been done of it, and leaves the members alone;
* what has been done of the pending change is the beginning of its plan;
* after a cancel has been written, whatever happens later, the driver makes no more than one call
  and one write for that change, both for an operation that it had marked before; the write confirms
  the operation and leaves the ledger alone.  When it is about to make the call it has done nothing
  else for the change since the cancel, so a call that fails is not made again. -/
theorem cancel_between_operations (run : Run (Step sharing) (.start t₀) before s) :
    (∀ i c id, s.busy i = some c → c.task = .cancel id →
      (∃ result, c.rest = .done result) ∨
        ∃ revise next, c.rest = .update revise next ∧ ∀ t', revise s.stored = .ok t' ↔
          s.stored.initialized ∧ ∃ change, s.stored.pending = some change ∧ change.id = id ∧
            t' = { s.stored with
              version := s.stored.version + 1
              pending := none
              lastChange := some ⟨id, .cancelled, change.done, c.now⟩ }) ∧
    (∀ change, s.stored.pending = some change →
      ∃ plan, Planned t₀ before change.id plan ∧ change.done <+: plan) ∧
    ∀ i id t t' s' later s'', Step sharing s (.wrote i (.cancel id) t t') s' →
      Run (Step sharing) s' later s'' →
      let trail := (watch t₀ (before ++ [.wrote i (.cancel id) t t'])).footprint id later
      (∃ acts stopped, trail = acts ++ stopped ∧ (stopped = [] ∨ stopped = [.stopped .driver]) ∧
        (acts = [] ∨
          ∃ op prepared called confirmed, Marked before id op prepared ∧
            prepared.call.Serves op ∧ acts = called ++ confirmed ∧
            (called = [] ∨ called = [.called .driver prepared.call]) ∧
            (confirmed = [] ∨ ∃ task t t', confirmed = [.wrote .driver task t t'] ∧
              t' = prepared.confirmed.apply op.member t ∧
              t'.pending = t.pending ∧ t'.lastChange = t.lastChange))) ∧
      ∀ c op call next, s''.busy .driver = some c → c.errand? = some (id, op) →
        c.rest = .call call next →
        trail = [] ∧ ∃ op prepared, Marked before id op prepared ∧ call = prepared.call := by
  have hcancels : ∀ i c, s.busy i = some c → c.Cancels :=
    run.invariant (p := fun s => ∀ i c, s.busy i = some c → c.Cancels) (by simp)
      fun _ _ _ h step => cancels_step h step
  refine ⟨?_, ?_, ?_⟩
  · intro i c id hbusy htask
    rcases hcancels i c hbusy id htask with hdone | ⟨next, hupdate, -⟩
    · exact Or.inl hdone
    · exact Or.inr ⟨_, next, hupdate, fun t' => Coordinator.cancelling_eq_ok_iff⟩
  · intro change hpending
    exact ⟨_, planned_run run change hpending, List.prefix_append _ _⟩
  · intro i id t t' s' later s'' step run' trail
    have hkeeping := keeping_run run (keeping_start t₀)
    have hstep := run.tail step
    rcases hkeeping.wrote step with ⟨rfl, rfl, hduty, -⟩
    -- Coordinators cancel, so the driver is where it was.
    have hdriver : s'.busy .driver = s.busy .driver := by
      refine step.busy_of_ne ?_
      rintro rfl
      exact hduty.elim
    rcases cancelling_of_wrote hcancels step with ⟨now, hcancelling⟩
    have hbeyond : Beyond id s'.stored := beyond_of_cancel hcancelling
    have hlate : Late before id [] (s'.busy .driver) := by
      rw [hdriver]
      exact late_of_inPhase (inPhase_run run)
    have hlate' := (late_run (watched_run hstep)
      (keeping_run hstep (keeping_start t₀)) hbeyond hlate run').2.2
    refine ⟨?_, ?_⟩
    · rcases hlate'.settled with ⟨acts, stopped, htrail, hacted, hstopped⟩
      refine ⟨acts, stopped, htrail, hstopped, ?_⟩
      rcases hacted with hnone | ⟨op, prepared, called, confirmed, hmarked, hacts, hcalled, hconfirmed⟩
      · exact Or.inl hnone
      · rcases hmarked.ready with ⟨settings, seen, hready⟩
        refine Or.inr ⟨op, prepared, called, confirmed, hmarked, hready.call_serves, hacts, hcalled,
          ?_⟩
        rcases hconfirmed with hnone | ⟨task, t, hwrote⟩
        · exact Or.inl hnone
        · exact Or.inr ⟨task, t, _, hwrote, rfl, by simp, by simp⟩
    · intro c op call next hbusy herrand hrest
      rw [hbusy] at hlate'
      exact hlate'.about_to_call herrand hrest

/-- A member is about to join when its change is cancelled. -/
def parting : List Choice :=
  let joining : Task := .change {} false (.perform [⟨"a", .joinCluster⟩, ⟨"b", .joinCluster⟩])
  [.begin (.coordinator 0) joining 0, .go (.coordinator 0), .go (.coordinator 0),
    .go (.coordinator 0), .begin .driver (.advance {}) 0, .go .driver, .go .driver,
    .begin (.coordinator 1) (.cancel 1) 0]

/-- A change that begins with the same operation is committed before the member is called. -/
def rejoining : List Choice :=
  let joining : Task := .change {} false (.perform [⟨"a", .joinCluster⟩])
  [.begin (.coordinator 0) joining 0, .go (.coordinator 0), .go (.coordinator 0), .go .driver,
    .go .driver]

/-- The coordinator that has cancelled a change by this event, and the number of the change. -/
def Event.cancelled? : Event → Option (Nat × Nat)
  | .wrote (.coordinator i) (.cancel id) _ _ => some (i, id)
  | _ => none

theorem Event.exists_of_cancelled? {e : Event} {i id : Nat} (h : e.cancelled? = some (i, id)) :
    ∃ t t', e = .wrote (.coordinator i) (.cancel id) t t' := by
  unfold Event.cancelled? at h
  split at h
  · cases h
    exact ⟨_, _, rfl⟩
  · cases h

def Event.writes : Event → Bool
  | .wrote .. => true
  | _ => false

theorem cancel_between_operations_rejoining :
    ∃ before s t t' s' later s'', (Scene.start .initial).follow parting = some (before, s) ∧
      s.act (.go (.coordinator 1)) = some (.wrote (.coordinator 1) (.cancel 1) t t', s') ∧
      s'.follow rejoining = some (later, s'') ∧
      s''.stored.pending = some (.start 2 [⟨"a", .joinCluster⟩]) ∧
      s''.stored.status? "a" = some .active ∧
      ∃ op prepared task t₁, Marked before 1 op prepared ∧ prepared.call.Serves op ∧
        (watch .initial (before ++ [.wrote (.coordinator 1) (.cancel 1) t t'])).footprint 1 later =
          [.called .driver prepared.call,
            .wrote .driver task t₁ (prepared.confirmed.apply op.member t₁)] := by
  have hviews : (((Scene.start .initial).follow parting).bind fun r =>
      (r.2.act (.go (.coordinator 1))).bind fun r' => (r'.2.follow rejoining).map fun r'' =>
        (r'.1.cancelled?, r''.2.stored.pending, r''.2.stored.status? "a",
          ((watch .initial (r.1 ++ [r'.1])).footprint 1 r''.1).map Event.writes)) =
      some (some (1, 1), some (.start 2 [⟨"a", .joinCluster⟩]), some .active, [false, true]) := by
    decide +kernel
  have hparting : ∀ choice ∈ parting, choice.Permitted sharing := by
    simp [parting, Choice.Permitted, sharing]
  have hrejoining : ∀ choice ∈ rejoining, choice.Permitted sharing := by
    simp [rejoining, Choice.Permitted, sharing]
  rcases hfirst : (Scene.start .initial).follow parting with _ | ⟨before, s⟩
  · simp [hfirst] at hviews
  · rcases hact : s.act (.go (.coordinator 1)) with _ | ⟨e, s'⟩
    · simp [hfirst, hact] at hviews
    · rcases hsecond : s'.follow rejoining with _ | ⟨later, s''⟩
      · simp [hfirst, hact, hsecond] at hviews
      · simp only [hfirst, hact, hsecond, Option.bind_some, Option.map_some, Option.some.injEq,
          Prod.mk.injEq] at hviews
        rcases hviews with ⟨hcancel, hpending, hstatus, htrail⟩
        rcases Event.exists_of_cancelled? hcancel with ⟨t, t', rfl⟩
        have hpermitted : (Choice.go (.coordinator 1)).Permitted sharing := trivial
        have hstep : Step sharing s (.wrote (.coordinator 1) (.cancel 1) t t') s' :=
          step_of_act hpermitted hact
        rcases ((cancel_between_operations (run_of_follow hparting hfirst)).2.2 _ _ _ _ _ _ _
          hstep (run_of_follow hrejoining hsecond)).1 with ⟨acts, stopped, hsplit, hstopped, hacts⟩
        -- The trail ends with a write, so nothing has stopped the driver.
        have hunstopped : stopped = [] := by
          refine hstopped.resolve_right ?_
          rintro rfl
          have hlast := congrArg List.getLast? htrail
          simp [hsplit, Event.writes] at hlast
        rw [hsplit, hunstopped, List.append_nil] at htrail
        rcases hacts with rfl | ⟨op, prepared, called, confirmed, hmarked, hserves, rfl, hcalled,
          hconfirmed⟩
        · simp at htrail
        · rcases hcalled with rfl | rfl
          · rcases hconfirmed with rfl | ⟨task, t₁, t₂, rfl, -⟩
            · simp at htrail
            · simp at htrail
          · rcases hconfirmed with rfl | ⟨task, t₁, t₂, rfl, rfl, -⟩
            · simp at htrail
            · exact ⟨before, s, t, t', s', later, s'', rfl, hact, hsecond, hpending, hstatus,
                op, prepared, task, t₁, hmarked, hserves, by simp [hsplit, hunstopped]⟩

end Interleaving

end ReplicaCluster
