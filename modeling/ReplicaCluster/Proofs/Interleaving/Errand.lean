import ReplicaCluster.Proofs.Execution.Undisturbed
import ReplicaCluster.Proofs.Interleaving.Serialization

/-!
# The driver's errand

Which change the driver is at work for is told by the events alone (`Watch`): it is the one that was
pending when the driver read the topology last.  An operation is marked by one write, carried out by
one call and confirmed by another write; `Phase` says how far the driver has come, and that it has
marked what it calls for.
-/

namespace ReplicaCluster

/-- The operation that a driver which reads the topology sets out to carry out, with the number of
its change. -/
def Topology.errand? (t : Topology) : Option (Nat × Operation) :=
  t.pending.bind fun c => c.next?.map fun op => (c.id, op)

namespace Interleaving

/-! ## What an observer of the events knows -/

/-- Whether the event is a call on a member or a write, by whichever party, or the failure that
there is instead of one. -/
def Event.acts : Event → Bool
  | .called .. | .wrote .. | .stopped _ => true
  | _ => false

/-- The stored topology, and what the driver has set out to do. -/
structure Watch where
  stored : Topology
  errand : Option (Nat × Operation)

namespace Watch

def see (w : Watch) : Event → Watch
  | .began .driver _ => { w with errand := none }
  | .read .driver => { w with errand := w.stored.errand? }
  | .wrote _ _ _ after => { w with stored := after }
  | _ => w

/-- Whether the event is an act of the driver for the change. -/
def attributes (w : Watch) (id : Nat) (e : Event) : Bool :=
  e.party = .driver && e.acts && w.errand.any fun errand => errand.1 = id

theorem attributes_eq_false_of_ne {w : Watch} {id : Nat} (h : ∀ op, w.errand ≠ some (id, op))
    (e : Event) : w.attributes id e = false := by
  have hother : w.errand.any (fun errand => decide (errand.1 = id)) = false := by
    cases herrand : w.errand with
    | none => rfl
    | some errand =>
        rcases errand with ⟨other, op⟩
        have hne : other ≠ id := by
          rintro rfl
          exact h op herrand
        simp [hne]
  simp [attributes, hother]

/-- What the driver does for a change. -/
def footprint (id : Nat) : Watch → List Event → List Event
  | _, [] => []
  | w, e :: rest => [e].filter (w.attributes id) ++ footprint id (w.see e) rest

theorem footprint_append (id : Nat) (e : Event) (events : List Event) :
    ∀ w : Watch, w.footprint id (events ++ [e]) =
      w.footprint id events ++ [e].filter ((events.foldl see w).attributes id) := by
  induction events with
  | nil =>
      intro w
      simp only [List.nil_append, List.foldl_nil, footprint, List.append_nil]
  | cons first rest ih =>
      intro w
      simp only [List.cons_append, List.foldl_cons, footprint, ih, List.append_assoc]

end Watch

def watch (t : Topology) (events : List Event) : Watch := events.foldl Watch.see ⟨t, none⟩

def Session.errand? (c : Session) : Option (Nat × Operation) := c.seen.bind Topology.errand?

variable {t₀ t t' : Topology} {s s' : Scene} {e : Event} {before events later : List Event}
  {id : Nat} {w : Watch}

/-- The observer is right about the store and the driver. -/
structure Watched (w : Watch) (s : Scene) : Prop where
  stored : w.stored = s.stored
  errand : ∀ c, s.busy .driver = some c → c.errand? = w.errand

theorem Watch.errand_see_of_ne (w : Watch) (h : .driver ≠ e.party) :
    (w.see e).errand = w.errand := by
  cases e with
  | began i task =>
      cases i with
      | driver => exact absurd rfl h
      | coordinator n => rfl
  | read i =>
      cases i with
      | driver => exact absurd rfl h
      | coordinator n => rfl
  | _ => rfl

theorem Watched.step {duties : Party → Task → Prop} (h : Watched w s) (step : Step duties s e s') :
    Watched (w.see e) s' := by
  have hstored : (w.see e).stored = s'.stored := by
    cases step with
    | @began i task now free duty => cases i <;> exact h.stored
    | @read i c next busy rest => cases i <;> exact h.stored
    | wrote busy rest revised => rfl
    | _ => exact h.stored
  have herrand : ∀ i c, s'.busy i = some c → i = .driver → c.errand? = (w.see e).errand := by
    refine step.busy_induction (p := fun i c => i = .driver → c.errand? = w.errand) ?_ ?_ ?_ ?_ ?_ ?_
    · rintro i c hc rfl
      exact h.errand c hc
    · rintro i c hc hother rfl
      exact (hc rfl).trans (w.errand_see_of_ne hother).symm
    · rintro i task now rfl - rfl
      rfl
    · rintro i c next rfl - - rfl
      simp [Session.errand?, Watch.see, h.stored]
    · rintro i c revise next t rfl hc - - rfl
      exact hc rfl
    · rintro i c call next rfl hc - rfl
      exact hc rfl
  exact ⟨hstored, fun c hc => herrand .driver c hc rfl⟩

theorem watched_run {duties : Party → Task → Prop} (run : Run (Step duties) (.start t₀) events s) :
    Watched (watch t₀ events) s := by
  induction run with
  | refl => exact ⟨rfl, by simp⟩
  | tail run last ih =>
      have hstep := ih.step last
      simpa [watch] using hstep

/-! ## The driver on its errand -/

section Errand

variable {now : Int} {op : Operation} {prepared : Prepared}

/-- The driver has marked the operation, while that was the next one of the change. -/
structure Marked (events : List Event) (id : Nat) (op : Operation) (prepared : Prepared) :
    Prop where
  ready : ∃ settings seen, Ready settings seen op prepared
  written : ∃ task t, Execution.isNext id op t ∧
    .wrote .driver task t (prepared.inProgress.apply op.member t) ∈ events

theorem Marked.append (h : Marked events id op prepared) (e : Event) :
    Marked (events ++ [e]) id op prepared := by
  rcases h with ⟨hready, task, t, hnext, hmem⟩
  exact ⟨hready, task, t, hnext, List.mem_append_left _ hmem⟩

/-- How far the driver has come with its errand, and what is left for it to do. -/
inductive Phase (events : List Event) (now : Int) :
    Option (Nat × Operation) → Process Result → Prop
  | reading {settings : Settings} {rest : Process Result}
      (h : rest = (Execution.advance settings now).map .advanced) : Phase events now none rest
  | marking {id : Nat} {op : Operation} {prepared : Prepared}
      (ready : ∃ settings seen, Ready settings seen op prepared) :
      Phase events now (some (id, op)) (marking now id op prepared)
  | calling {id : Nat} {op : Operation} {prepared : Prepared}
      (marked : Marked events id op prepared) :
      Phase events now (some (id, op)) (calling now id op prepared)
  | confirming {id : Nat} {op : Operation} {prepared : Prepared}
      (marked : Marked events id op prepared) :
      Phase events now (some (id, op)) (confirming now id op prepared)
  | done {errand : Option (Nat × Operation)} (result : Result) :
      Phase events now errand (.done result)
  | fail {errand : Option (Nat × Operation)} (e : Failure) : Phase events now errand (.fail e)

theorem Phase.append {errand : Option (Nat × Operation)} {rest : Process Result}
    (h : Phase events now errand rest) (e : Event) : Phase (events ++ [e]) now errand rest := by
  cases h with
  | reading hrest => exact .reading hrest
  | marking ready => exact .marking ready
  | calling marked => exact .calling (marked.append e)
  | confirming marked => exact .confirming (marked.append e)
  | done result => exact .done result
  | fail e => exact .fail e

theorem phase_of_read {settings : Settings} {next : Topology → Process Result}
    (h : .read next = (Execution.advance settings now).map Result.advanced) (t : Topology) :
    Phase events now t.errand? (next t) := by
  rcases cases_of_advance h t with ⟨result, hdone⟩ | ⟨e, hfail⟩ |
    ⟨c, op, rest, prepared, hpending, hremaining, hprepare, hmarking⟩
  · rw [hdone]
    exact .done result
  · rw [hfail]
    exact .fail e
  · have herrand : t.errand? = some (c.id, op) := by
      simp [Topology.errand?, hpending, PendingChange.next?, hremaining]
    rw [hmarking, herrand]
    exact .marking ⟨settings, t, Operation.ready_of_prepare hprepare⟩

namespace Phase

variable {errand : Option (Nat × Operation)} {revise : Revision} {call : Call}
  {next : Topology → Process Result} {after : Process Result}

theorem read (h : Phase events now errand (.read next)) (t : Topology) :
    Phase events now t.errand? (next t) := by
  cases h with
  | reading hrest => exact phase_of_read hrest t

/-- From the first write on the operation is on record as marked. -/
theorem wrote {task : Task} (h : Phase events now errand (.update revise next))
    (revised : revise t = .ok t') :
    Phase (events ++ [.wrote .driver task t t']) now errand (next t') := by
  cases h with
  | reading hrest => simp [Execution.advance, Process.map] at hrest
  | marking ready =>
      rcases Execution.starting_eq_ok_iff.1 revised with ⟨hnext, rfl⟩
      exact .calling ⟨ready, task, t, hnext, List.mem_concat_self⟩
  | confirming marked => exact .done _

theorem called (h : Phase events now errand (.call call after)) (e : Event) :
    Phase (events ++ [e]) now errand after := by
  cases h with
  | reading hrest => simp [Execution.advance, Process.map] at hrest
  | calling marked => exact .confirming (marked.append e)

end Phase

/-- The phase of the driver's session, if it has one. -/
def InPhase (events : List Event) (s : Scene) : Prop :=
  ∀ c, s.busy .driver = some c → Phase events c.now c.errand? c.rest

theorem InPhase.step (h : InPhase events s) (step : Step sharing s e s') :
    InPhase (events ++ [e]) s' := by
  have hphase : ∀ i c, s'.busy i = some c → i = .driver →
      Phase (events ++ [e]) c.now c.errand? c.rest := by
    refine step.busy_induction
      (p := fun i c => i = .driver → Phase events c.now c.errand? c.rest) ?_ ?_ ?_ ?_ ?_ ?_
    · rintro i c hc rfl
      exact h c hc
    · intro i c hc _ hi
      exact (hc hi).append e
    · rintro i task now - duty rfl
      cases task with
      | advance settings => exact .reading rfl
      | _ => exact duty.elim
    · rintro i c next - hc hrest rfl
      exact ((hrest ▸ hc rfl).read s.stored).append e
    · rintro i c revise next t rfl hc hrest revised rfl
      exact (hrest ▸ hc rfl).wrote revised
    · rintro i c call next - hc hrest rfl
      exact (hrest ▸ hc rfl).called e
  exact fun c hc => hphase .driver c hc rfl

theorem inPhase_run (run : Run (Step sharing) (.start t₀) events s) : InPhase events s := by
  induction run with
  | refl =>
      intro c hc
      simp at hc
  | tail run last ih => exact ih.step last

end Errand

end Interleaving

end ReplicaCluster
