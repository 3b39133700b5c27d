import ReplicaCluster.Execution.Advance
import ReplicaCluster.Management.Handler

/-!
# Parties that take turns on one store

A driver and any number of coordinators work on one stored topology.  Each of them carries out one
task at a time, as a process, and between two atomic steps of one party any other may act.  A
party may also stop at any point: because the store or a member fails, or because it is restarted.

* `Step duties s e s'` is one atomic step from scene `s` to scene `s'`, with the event `e` that an
  observer sees.
* `Run step s events s'` is any number of steps.
* `Scene.follow` carries out a run that is given by the choices made on its way.
-/

namespace ReplicaCluster

namespace Interleaving

/-! ## Tasks -/

inductive Party
  | driver
  | coordinator (number : Nat)
  deriving DecidableEq

/-- What a party may set out to do. -/
inductive Task
  | change (settings : Settings) (dryRun : Bool) (planner : Planner)
  | cancel (change : Nat)
  | manage (settings : Settings) (request : Request)
  | advance (settings : Settings)

inductive Result
  | changed (result : ChangeResult)
  | cancelled (topology : Topology)
  | replied (response : Response)
  | advanced (operation : Option Operation)

/-- The atomic steps of a task. -/
def Task.process (now : Int) : Task → Process Result
  | .change settings dryRun planner =>
      (Coordinator.request settings now dryRun planner).map .changed
  | .cancel id => (Coordinator.cancel now id).map .cancelled
  | .manage settings request => (request.handle settings now).map .replied
  | .advance settings => (Execution.advance settings now).map .advanced

/-! ## Scenes -/

/-- A task under way, with what is left of its process. -/
structure Session where
  task : Task
  now : Int
  /-- The topology that was read last. -/
  seen : Option Topology
  /-- Whether the task has written to the store. -/
  written : Bool
  rest : Process Result

def Session.begin (task : Task) (now : Int) : Session := ⟨task, now, none, false, task.process now⟩

/-- The stored topology, and what each party is busy with. -/
structure Scene where
  stored : Topology
  busy : Party → Option Session

namespace Scene

def start (t : Topology) : Scene := ⟨t, fun _ => none⟩

def set (s : Scene) (i : Party) (session : Option Session) : Scene :=
  { s with busy := fun j => if j = i then session else s.busy j }

def store (s : Scene) (i : Party) (t : Topology) (session : Session) : Scene :=
  { s.set i (some session) with stored := t }

variable {s : Scene} {i j : Party} {session : Option Session}

@[simp] theorem stored_start (t : Topology) : (start t).stored = t := rfl

@[simp] theorem busy_start (t : Topology) : (start t).busy i = none := rfl

@[simp] theorem stored_set : (s.set i session).stored = s.stored := rfl

theorem busy_set : (s.set i session).busy j = if j = i then session else s.busy j := rfl

@[simp] theorem busy_set_self : (s.set i session).busy i = session := if_pos rfl

@[simp] theorem stored_store (t : Topology) (c : Session) : (s.store i t c).stored = t := rfl

theorem busy_store (t : Topology) (c : Session) :
    (s.store i t c).busy j = if j = i then some c else s.busy j := rfl

@[simp] theorem busy_store_self (t : Topology) (c : Session) : (s.store i t c).busy i = some c :=
  if_pos rfl

end Scene

/-! ## Steps -/

/-- What an observer sees of a step. -/
inductive Event
  | began (party : Party) (task : Task)
  | read (party : Party)
  /-- The party has put one topology in place of another. -/
  | wrote (party : Party) (task : Task) (before after : Topology)
  /-- The party's task has failed by its own rules. -/
  | refused (party : Party) (failure : Failure)
  | called (party : Party) (call : Call)
  /-- A failure of the store or of a member has ended the party's task, or a restart has. -/
  | stopped (party : Party)
  | answered (party : Party) (result : Result)

def Event.party : Event → Party
  | .began i _ | .read i | .wrote i _ _ _ | .refused i _ | .called i _ | .stopped i
  | .answered i _ => i

/-- One atomic step.  `duties` says which tasks each party may take up. -/
inductive Step (duties : Party → Task → Prop) : Scene → Event → Scene → Prop
  | began {s : Scene} {i : Party} {task : Task} (now : Int) (free : s.busy i = none)
      (duty : duties i task) :
      Step duties s (.began i task) (s.set i (some (.begin task now)))
  | read {s : Scene} {i : Party} {c : Session} {next : Topology → Process Result}
      (busy : s.busy i = some c) (rest : c.rest = .read next) :
      Step duties s (.read i)
        (s.set i (some { c with seen := some s.stored, rest := next s.stored }))
  | wrote {s : Scene} {i : Party} {c : Session} {revise : Revision}
      {next : Topology → Process Result} {t : Topology} (busy : s.busy i = some c)
      (rest : c.rest = .update revise next) (revised : revise s.stored = .ok t) :
      Step duties s (.wrote i c.task s.stored t)
        (s.store i t { c with written := true, rest := next t })
  | rejected {s : Scene} {i : Party} {c : Session} {revise : Revision}
      {next : Topology → Process Result} {e : Failure} (busy : s.busy i = some c)
      (rest : c.rest = .update revise next) (revised : revise s.stored = .error e) :
      Step duties s (.refused i e) (s.set i none)
  | refused {s : Scene} {i : Party} {c : Session} {e : Failure} (busy : s.busy i = some c)
      (rest : c.rest = .fail e) :
      Step duties s (.refused i e) (s.set i none)
  | called {s : Scene} {i : Party} {c : Session} {call : Call} {next : Process Result}
      (busy : s.busy i = some c) (rest : c.rest = .call call next) :
      Step duties s (.called i call) (s.set i (some { c with rest := next }))
  | stopped {s : Scene} {i : Party} {c : Session} (busy : s.busy i = some c) :
      Step duties s (.stopped i) (s.set i none)
  | answered {s : Scene} {i : Party} {c : Session} {result : Result} (busy : s.busy i = some c)
      (rest : c.rest = .done result) :
      Step duties s (.answered i result) (s.set i none)

/-- No party meddles with what another one is busy with. -/
theorem Step.busy_of_ne {duties : Party → Task → Prop} {s s' : Scene} {e : Event} {i : Party}
    (step : Step duties s e s') (h : i ≠ e.party) : s'.busy i = s.busy i := by
  cases step <;> exact if_neg h

/-- What holds of all sessions before a step gives what holds of them after it: the party that acts
begins a task or goes on with its own, and the others are busy as before. -/
theorem Step.busy_induction {duties : Party → Task → Prop} {p q : Party → Session → Prop}
    {s s' : Scene} {e : Event} (step : Step duties s e s') (h : ∀ i c, s.busy i = some c → p i c)
    (keep : ∀ i c, p i c → i ≠ e.party → q i c)
    (begin : ∀ i task now, e = .began i task → duties i task → q i (.begin task now))
    (read : ∀ i c next, e = .read i → p i c → c.rest = .read next →
      q i { c with seen := some s.stored, rest := next s.stored })
    (write : ∀ i c revise next t, e = .wrote i c.task s.stored t → p i c →
      c.rest = .update revise next → revise s.stored = .ok t →
      q i { c with written := true, rest := next t })
    (call : ∀ i c call next, e = .called i call → p i c → c.rest = .call call next →
      q i { c with rest := next }) :
    ∀ i c, s'.busy i = some c → q i c := by
  intro j c hc
  by_cases hj : j = e.party
  · -- The steps that are not treated by cases end the session of their party.
    cases step with
    | @began i task now free duty =>
        have hi : j = i := hj
        subst hi
        have hbegin : Session.begin task now = c := by simpa [Scene.busy_set] using hc
        exact hbegin ▸ begin j task now rfl duty
    | @read i c' next busy rest =>
        have hi : j = i := hj
        subst hi
        have hread : { c' with seen := some s.stored, rest := next s.stored } = c := by
          simpa [Scene.busy_set] using hc
        exact hread ▸ read j c' next rfl (h j c' busy) rest
    | @wrote i c' revise next t busy rest revised =>
        have hi : j = i := hj
        subst hi
        have hwrote : { c' with written := true, rest := next t } = c := by
          simpa [Scene.busy_store] using hc
        exact hwrote ▸ write j c' revise next t rfl (h j c' busy) rest revised
    | @called i c' call' next busy rest =>
        have hi : j = i := hj
        subst hi
        have hcalled : { c' with rest := next } = c := by simpa [Scene.busy_set] using hc
        exact hcalled ▸ call j c' call' next rfl (h j c' busy) rest
    | rejected busy rest revised => simp [hj, Event.party] at hc
    | refused busy rest => simp [hj, Event.party] at hc
    | stopped busy => simp [hj, Event.party] at hc
    | answered busy rest => simp [hj, Event.party] at hc
  · exact keep j c (h j c (by rwa [← step.busy_of_ne hj])) hj

/-- What all sessions have in common when they begin, and keep by their own steps, they always
have in common. -/
theorem Step.forall_busy {duties : Party → Task → Prop} {p : Party → Session → Prop}
    {s s' : Scene} {e : Event} (step : Step duties s e s') (h : ∀ i c, s.busy i = some c → p i c)
    (begin : ∀ i task now, duties i task → p i (.begin task now))
    (read : ∀ i c next t, p i c → c.rest = .read next →
      p i { c with seen := some t, rest := next t })
    (write : ∀ i c revise next t, p i c → c.rest = .update revise next →
      p i { c with written := true, rest := next t })
    (call : ∀ i c call next, p i c → c.rest = .call call next → p i { c with rest := next }) :
    ∀ i c, s'.busy i = some c → p i c :=
  step.busy_induction h (fun _ _ hc _ => hc) (fun i task now _ => begin i task now)
    (fun i c next _ => read i c next s.stored)
    (fun i c revise next t _ hc rest _ => write i c revise next t hc rest)
    (fun i c call' next _ => call i c call' next)

/-! ## Runs -/

/-- Any number of steps, with the events that they show. -/
inductive Run {σ ε : Type} (step : σ → ε → σ → Prop) (s : σ) : List ε → σ → Prop
  | refl : Run step s [] s
  | tail {events : List ε} {s' s'' : σ} {e : ε} (run : Run step s events s')
      (last : step s' e s'') : Run step s (events ++ [e]) s''

namespace Run

variable {σ ε : Type} {step step' : σ → ε → σ → Prop} {s s' s'' : σ} {events events' : List ε}

theorem invariant {p : σ → Prop} (init : p s) (preserved : ∀ s e s', p s → step s e s' → p s')
    (run : Run step s events s') : p s' := by
  induction run with
  | refl => exact init
  | tail _ last ih => exact preserved _ _ _ ih last

/-- What an invariant says may be used at every step. -/
theorem strengthen {p : σ → Prop} (init : p s) (preserved : ∀ s e s', p s → step s e s' → p s')
    (run : Run step s events s') : Run (fun s e s' => p s ∧ step s e s') s events s' := by
  induction run with
  | refl => exact .refl
  | tail run last ih => exact ih.tail ⟨run.invariant init preserved, last⟩

theorem mono (h : ∀ s e s', step s e s' → step' s e s') (run : Run step s events s') :
    Run step' s events s' := by
  induction run with
  | refl => exact .refl
  | tail _ last ih => exact ih.tail (h _ _ _ last)

theorem trans (first : Run step s events s') (second : Run step s' events' s'') :
    Run step s (events ++ events') s'' := by
  induction second with
  | refl => simpa using first
  | tail _ last ih => simpa using ih.tail last

end Run

section Duties

variable {duties duties' : Party → Task → Prop} {s s' : Scene} {e : Event} {events : List Event}
  {i : Party} {task : Task}

theorem Step.duty_of_began (step : Step duties s (.began i task) s') : duties i task := by
  cases step with
  | began now free duty => exact duty

/-- Nobody is ever busy with what is not their duty. -/
theorem Step.forall_duty (h : ∀ i c, s.busy i = some c → duties i c.task)
    (step : Step duties s e s') : ∀ i c, s'.busy i = some c → duties i c.task :=
  step.forall_busy (p := fun i c => duties i c.task) h (fun _ _ _ duty => duty)
    (fun _ _ _ _ duty _ => duty) (fun _ _ _ _ _ duty _ => duty) (fun _ _ _ _ duty _ => duty)

/-- Duties matter to the beginning of a task only. -/
theorem Step.restrict (step : Step duties s e s')
    (h : ∀ i task, e = .began i task → duties' i task) : Step duties' s e s' := by
  cases step with
  | began now free duty => exact .began now free (h _ _ rfl)
  | read busy rest => exact .read busy rest
  | wrote busy rest revised => exact .wrote busy rest revised
  | rejected busy rest revised => exact .rejected busy rest revised
  | refused busy rest => exact .refused busy rest
  | called busy rest => exact .called busy rest
  | stopped busy => exact .stopped busy
  | answered busy rest => exact .answered busy rest

theorem duty_of_began (run : Run (Step duties) s events s') (h : .began i task ∈ events) :
    duties i task := by
  induction run with
  | refl => cases h
  | tail run last ih =>
      rcases List.mem_append.1 h with hbefore | hlast
      · exact ih hbefore
      · have he : Event.began i task = _ := List.mem_singleton.1 hlast
        subst he
        exact last.duty_of_began

/-- A run is one of all duties that it shows. -/
theorem run_restrict (run : Run (Step duties) s events s')
    (h : ∀ i task, .began i task ∈ events → duties' i task) : Run (Step duties') s events s' := by
  induction run with
  | refl => exact .refl
  | tail run last ih =>
      have hbefore := ih fun i task hmem => h i task (List.mem_append_left _ hmem)
      refine hbefore.tail (last.restrict ?_)
      rintro i task rfl
      exact h i task List.mem_concat_self

end Duties

/-! ## Carrying out a run -/

/-- A choice of what happens next. -/
inductive Choice
  | begin (party : Party) (task : Task) (now : Int)
  /-- The party takes the next step of its process. -/
  | go (party : Party)
  | stop (party : Party)

def Choice.Permitted (duties : Party → Task → Prop) : Choice → Prop
  | .begin i task _ => duties i task
  | .go _ | .stop _ => True

def Session.go (s : Scene) (i : Party) (c : Session) : Event × Scene :=
  match c.rest with
  | .done result => (.answered i result, s.set i none)
  | .fail e => (.refused i e, s.set i none)
  | .read next => (.read i, s.set i (some { c with seen := some s.stored, rest := next s.stored }))
  | .update revise next =>
      match revise s.stored with
      | .ok t =>
          (.wrote i c.task s.stored t, s.store i t { c with written := true, rest := next t })
      | .error e => (.refused i e, s.set i none)
  | .call call next => (.called i call, s.set i (some { c with rest := next }))

/-- The step that is chosen, if it can be taken. -/
def Scene.act (s : Scene) : Choice → Option (Event × Scene)
  | .begin i task now =>
      match s.busy i with
      | none => some (.began i task, s.set i (some (.begin task now)))
      | some _ => none
  | .go i => (s.busy i).map fun c => c.go s i
  | .stop i => (s.busy i).map fun _ => (.stopped i, s.set i none)

/-- The run that is chosen, if it can be taken and leaves no scene that fails the test. -/
def Scene.followWhile (test : Scene → Bool) (s : Scene) : List Choice → Option (List Event × Scene)
  | [] => some ([], s)
  | choice :: rest =>
      if test s then
        match s.act choice with
        | none => none
        | some (e, s') => (s'.followWhile test rest).map fun (events, s'') => (e :: events, s'')
      else none

/-- The run that is chosen, if it can be taken. -/
def Scene.follow (s : Scene) (choices : List Choice) : Option (List Event × Scene) :=
  s.followWhile (fun _ => true) choices

section Follow

variable {duties : Party → Task → Prop} {s s' : Scene} {i : Party} {c : Session}

theorem step_of_go (busy : s.busy i = some c) : Step duties s (c.go s i).1 (c.go s i).2 := by
  unfold Session.go
  cases hrest : c.rest with
  | done result => exact .answered busy hrest
  | fail e => exact .refused busy hrest
  | read next => exact .read busy hrest
  | call call next => exact .called busy hrest
  | update revise next =>
      cases hrevised : revise s.stored with
      | ok t => simpa [hrevised] using Step.wrote busy hrest hrevised
      | error e => simpa [hrevised] using Step.rejected busy hrest hrevised

theorem step_of_act {choice : Choice} {e : Event} (permitted : choice.Permitted duties)
    (h : s.act choice = some (e, s')) : Step duties s e s' := by
  cases choice with
  | begin i task now =>
      cases hbusy : s.busy i with
      | some c => simp [Scene.act, hbusy] at h
      | none =>
          have hact : Event.began i task = e ∧ s.set i (some (.begin task now)) = s' := by
            simpa [Scene.act, hbusy] using h
          rcases hact with ⟨rfl, rfl⟩
          exact .began now hbusy permitted
  | go i =>
      cases hbusy : s.busy i with
      | none => simp [Scene.act, hbusy] at h
      | some c =>
          have hact : c.go s i = (e, s') := by simpa [Scene.act, hbusy] using h
          have hstep : Step duties s (c.go s i).1 (c.go s i).2 := step_of_go hbusy
          rwa [hact] at hstep
  | stop i =>
      cases hbusy : s.busy i with
      | none => simp [Scene.act, hbusy] at h
      | some c =>
          have hact : Event.stopped i = e ∧ s.set i none = s' := by
            simpa [Scene.act, hbusy] using h
          rcases hact with ⟨rfl, rfl⟩
          exact .stopped hbusy

/-- What is followed is a run, through scenes that pass the test. -/
theorem run_of_followWhile {test : Scene → Bool} {p : Scene → Prop} (sound : ∀ s, test s → p s)
    {choices : List Choice} :
    ∀ {s s' : Scene} {events : List Event}, (∀ choice ∈ choices, choice.Permitted duties) →
      s.followWhile test choices = some (events, s') →
      Run (fun s e s' => p s ∧ Step duties s e s') s events s' := by
  -- By induction on the choices, for every scene that the run may start from.
  induction choices with
  | nil =>
      intro s s' events _ h
      have hend : [] = events ∧ s = s' := by simpa [Scene.followWhile] using h
      rcases hend with ⟨rfl, rfl⟩
      exact .refl
  | cons choice rest ih =>
      intro s s' events permitted h
      by_cases htest : test s
      · cases hact : s.act choice with
        | none => simp [Scene.followWhile, htest, hact] at h
        | some next =>
            rcases next with ⟨e, s₁⟩
            simp only [Scene.followWhile, htest, if_true, hact, Option.map_eq_some_iff, Prod.exists,
              Prod.mk.injEq] at h
            rcases h with ⟨events₁, s₂, hrest, rfl, rfl⟩
            have hstep : Step duties s e s₁ := step_of_act (permitted _ List.mem_cons_self) hact
            have hfirst : Run (fun s e s' => p s ∧ Step duties s e s') s [e] s₁ :=
              .tail .refl ⟨sound s htest, hstep⟩
            exact hfirst.trans (ih (fun c hc => permitted c (List.mem_cons_of_mem _ hc)) hrest)
      · simp [Scene.followWhile, htest] at h

theorem follow_of_followWhile {test : Scene → Bool} {choices : List Choice} {events : List Event}
    (h : s.followWhile test choices = some (events, s')) :
    s.follow choices = some (events, s') := by
  induction choices generalizing s events with
  | nil => exact h
  | cons choice rest ih =>
      by_cases htest : test s
      · cases hact : s.act choice with
        | none => simp [Scene.followWhile, htest, hact] at h
        | some next =>
            simp only [Scene.followWhile, htest, if_true, hact, Option.map_eq_some_iff, Prod.exists,
              Prod.mk.injEq] at h
            rcases h with ⟨events₁, s₂, hrest, rfl, rfl⟩
            have hfollow := ih hrest
            unfold Scene.follow at hfollow ⊢
            simp [Scene.followWhile, hact, hfollow]
      · simp [Scene.followWhile, htest] at h

theorem run_of_follow {choices : List Choice} {events : List Event}
    (permitted : ∀ choice ∈ choices, choice.Permitted duties)
    (h : s.follow choices = some (events, s')) : Run (Step duties) s events s' := by
  have hrun := run_of_followWhile (p := fun _ => True) (fun _ _ => trivial) permitted h
  exact hrun.mono fun _ _ _ h => h.2

end Follow

end Interleaving

end ReplicaCluster
