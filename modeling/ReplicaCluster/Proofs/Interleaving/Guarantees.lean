import ReplicaCluster.Proofs.Coordinator.Proposal
import ReplicaCluster.Proofs.Interleaving.Scene
import ReplicaCluster.Proofs.Topology.Ledger

/-!
# What tasks guarantee to each other

A process guarantees `R` if every revision that it attempts relates the topology that it finds to
the one that it stores by `R`, whatever it was told before.  Guarantees do not depend on what the
other parties do, so they hold of every write of every run (`Keeping.step`).

Coordinators guarantee that they do no more than begin a change where none is pending, or cancel
the one that is.  Drivers guarantee that the pending change proceeds in order.  Whatever a party
writes raises the version of the topology, if it changes anything.
-/

namespace ReplicaCluster

/-! ## Guarantees of processes -/

namespace Process

variable {α β : Type} {R R' : Topology → Topology → Prop}

/-- Every revision of the process keeps to `R`. -/
def Revises (R : Topology → Topology → Prop) : Process α → Prop
  | .done _ | .fail _ => True
  | .read next => ∀ t, (next t).Revises R
  | .update revise next => (∀ t t', revise t = .ok t' → R t t') ∧ ∀ t, (next t).Revises R
  | .call _ next => next.Revises R

theorem Revises.map {p : Process α} (h : p.Revises R) (f : α → β) : (p.map f).Revises R := by
  induction p with
  | done result => trivial
  | fail failure => trivial
  | read next ih =>
      intro t
      exact ih t (h t)
  | update revise next ih =>
      refine ⟨h.1, ?_⟩
      intro t
      exact ih t (h.2 t)
  | call c next ih => exact ih h

theorem Revises.mono {p : Process α} (h : p.Revises R) (weaker : ∀ t t', R t t' → R' t t') :
    p.Revises R' := by
  induction p with
  | done result => trivial
  | fail failure => trivial
  | read next ih =>
      intro t
      exact ih t (h t)
  | update revise next ih =>
      refine ⟨fun t t' hrevise => weaker t t' (h.1 t t' hrevise), ?_⟩
      intro t
      exact ih t (h.2 t)
  | call c next ih => exact ih h

end Process

/-! ## Guarantees of the coordinator -/

/-- Whether all plans of a planner consist of good operations. -/
def Planner.Yields (good : Operation → Prop) (planner : Planner) : Prop :=
  ∀ t operations, planner t = .ok operations → ∀ op ∈ operations, good op

def Topology.Begins (good : Operation → Prop) (t t' : Topology) : Prop :=
  t.pending = none ∧
    ∃ operations, operations ≠ [] ∧ (∀ op ∈ operations, good op) ∧ t' = t.begun operations

def Topology.Cancels (t t' : Topology) : Prop :=
  ∃ c now, t.pending = some c ∧ t' = t.cancelChange now

def Topology.Admits (good : Operation → Prop) (t t' : Topology) : Prop :=
  t.Begins good t' ∨ t.Cancels t'

theorem Topology.Begins.mono {good better : Operation → Prop} {t t' : Topology}
    (h : t.Begins good t') (better_of_good : ∀ op, good op → better op) : t.Begins better t' := by
  rcases h with ⟨hpending, operations, hnonempty, hgood, hbegun⟩
  exact ⟨hpending, operations, hnonempty, fun op hop => better_of_good op (hgood op hop), hbegun⟩

namespace Coordinator

variable {good : Operation → Prop}

/-- A commit succeeds on the topology of the plan only, on which nothing is pending, and begins what
was planned. -/
theorem begins_of_commit {settings : Settings} {now : Int} {planner : Planner}
    {t stored t' : Topology}
    {p : Proposal} (planned : propose settings now planner t = .ok (some p))
    (committed : commit t p.started stored = .ok t') :
    stored = t ∧ planner t = .ok p.operations ∧ t.Begins (· ∈ p.operations) t' := by
  rcases propose_eq_ok_some_iff.1 planned with ⟨hplan, hnonempty, -, hstart, -⟩
  rcases Topology.startChange_eq_ok_iff.1 hstart with ⟨hpending, -, hbegun⟩
  by_cases hstored : stored = t
  · have ht' : p.started = t' := by simpa [commit, hstored] using committed
    exact ⟨hstored, hplan, hpending, p.operations, hnonempty, fun _ hop => hop, ht' ▸ hbegun⟩
  · simp [commit, hstored] at committed

theorem revises_request (settings : Settings) (now : Int) (dryRun : Bool) {planner : Planner}
    (yields : planner.Yields good) :
    (request settings now dryRun planner).Revises (Topology.Begins good) := by
  intro t
  cases hpropose : propose settings now planner t with
  | error e => simp [hpropose, Process.Revises]
  | ok proposal =>
      cases proposal with
      | none => simp [hpropose, Process.Revises]
      | some p =>
          cases dryRun with
          | true => simp [hpropose, Process.Revises]
          | false =>
              simp only [hpropose, Bool.false_eq_true, if_false, Process.Revises, implies_true,
                and_true]
              intro stored t' hcommit
              rcases begins_of_commit hpropose hcommit with ⟨rfl, hplan, hbegins⟩
              exact hbegins.mono fun op hop => yields stored _ hplan op hop

/-- What a recovery stores: the topology that it was planned on without the dropped members, and
with owners to be declared unless everything is lost. -/
theorem proposeRecovery_eq_ok {settings : Settings} {now : Int} {members : List MemberId}
    {t : Topology} {proposal : Proposal}
    (h : proposeRecovery settings now members t = .ok proposal) :
    t.pending = none ∧ ∃ recovery, Recovery.plan members t = .ok recovery ∧
      proposal.operations = recovery.operations ∧
      ((recovery.operations = [] ∧ proposal.started = recovery.topology) ∨
        recovery.topology.Begins (· ∈ recovery.operations) proposal.started) := by
  unfold proposeRecovery at h
  split at h
  · split at h
    · simp at h
    · next hpending =>
        rw [bind_eq_ok_iff] at h
        rcases h with ⟨recovery, hplan, h⟩
        refine ⟨hpending, recovery, hplan, ?_⟩
        split at h
        · next hempty =>
            cases h
            have hnone : recovery.operations = [] := List.isEmpty_iff.1 hempty
            exact ⟨hnone.symm, Or.inl ⟨hnone, rfl⟩⟩
        · simp only [bind_eq_ok_iff] at h
          rcases h with ⟨started, hstart, final, -, hproposal⟩
          cases hproposal
          rcases Topology.startChange_eq_ok_iff.1 hstart with ⟨hidle, hnonempty, hbegun⟩
          exact ⟨rfl, Or.inr ⟨hidle, _, hnonempty, fun _ hop => hop, hbegun⟩⟩
  · simp at h

theorem revises_cancel (now : Int) (change : Nat) :
    (cancel now change).Revises Topology.Cancels := by
  refine ⟨?_, fun t => trivial⟩
  intro t t' hcancel
  by_cases hinit : t.initialized
  · cases hpending : t.pending with
    | none => simp [cancelling, hinit, hpending] at hcancel
    | some c =>
        by_cases hid : c.id = change
        · have ht' : t.cancelChange now = t' := by
            simpa [cancelling, hinit, hpending, hid] using hcancel
          exact ⟨c, now, hpending, ht'.symm⟩
        · simp [cancelling, hinit, hpending, hid] at hcancel
  · simp [cancelling, hinit] at hcancel

end Coordinator

/-- Requests to the management, other than those that drop members by force, begin and cancel
changes. -/
theorem Request.revises_handle (settings : Settings) (now : Int) {request : Request}
    (gentle : ∀ members, request ≠ .forceOverwrite members) :
    (request.handle settings now).Revises (Topology.Admits fun _ => True) := by
  have hchange : ∀ dryRun intent,
      (change settings now dryRun intent).Revises (Topology.Admits fun _ => True) := by
    intro dryRun intent
    have hrequest : (Coordinator.request settings now dryRun intent.planner).Revises
        (Topology.Begins fun _ => True) :=
      Coordinator.revises_request settings now dryRun fun _ _ _ _ _ => trivial
    exact (hrequest.map _).mono fun t t' h => Or.inl h
  have hmembers : ∀ members dryRun intent,
      (withMembers members (change settings now dryRun intent)).Revises
        (Topology.Admits fun _ => True) := by
    intro members dryRun intent
    unfold withMembers
    split
    · exact hchange dryRun intent
    · trivial
  cases request with
  | addMembers members dryRun => exact hmembers members dryRun _
  | removeMembers members dryRun => exact hmembers members dryRun _
  | joinPartition member p priority dryRun => exact hchange dryRun _
  | leavePartition member p dryRun => exact hchange dryRun _
  | reassign members dryRun => exact hmembers members dryRun _
  | scale members dryRun => exact hmembers members dryRun _
  | cancel id =>
      exact ((Coordinator.revises_cancel now id).map _).mono fun t t' h => Or.inr h
  | forceOverwrite members => exact absurd rfl (gentle members)
  | topology =>
      intro t
      trivial

/-! ## Guarantees of the driver -/

/-- The pending change proceeds by one operation or stays as it is, and is recorded as completed
with its last operation. -/
def Topology.Proceeds (t t' : Topology) : Prop :=
  (t'.pending = t.pending ∧ t'.lastChange = t.lastChange) ∨
    ∃ c, t.pending = some c ∧
      ((t'.pending = some c.advance ∧ t'.lastChange = t.lastChange) ∨
        ∃ now, t'.pending = none ∧ t'.lastChange = some ⟨c.id, .completed, c.operations, now⟩)

/-- What remains of a change when one operation is done remained before. -/
theorem PendingChange.mem_of_mem_advance {c : PendingChange} {op : Operation}
    (h : op ∈ c.advance.remaining) : op ∈ c.remaining := by
  unfold advance at h
  split at h
  · exact h
  · next first rest hremaining =>
      rw [hremaining]
      exact List.mem_cons_of_mem _ h

theorem Topology.Proceeds.forall_pending {good : Operation → Prop} {t t' : Topology}
    (h : t.Proceeds t') (sane : ∀ c, t.pending = some c → ∀ op ∈ c.remaining, good op) :
    ∀ c, t'.pending = some c → ∀ op ∈ c.remaining, good op := by
  intro c' hc' op hop
  rcases h with ⟨hsame, -⟩ | ⟨c, hpending, ⟨hadvance, -⟩ | ⟨now, hnone, -⟩⟩
  · exact sane c' (by rw [← hsame, hc']) op hop
  · have hrest : c.advance = c' := by simpa [hadvance] using hc'
    subst hrest
    exact sane c hpending op (PendingChange.mem_of_mem_advance hop)
  · simp [hnone] at hc'

theorem Topology.Admits.forall_pending {good : Operation → Prop} {t t' : Topology}
    (h : t.Admits good t') : ∀ c, t'.pending = some c → ∀ op ∈ c.remaining, good op := by
  intro c' hc'
  rcases h with ⟨-, operations, -, hgood, rfl⟩ | ⟨c, now, hpending, rfl⟩
  · have hbegun : PendingChange.start t.nextChangeId operations = c' := by
      simpa [Topology.begun] using hc'
    rw [← hbegun]
    exact hgood
  · simp [Topology.cancelChange, hpending] at hc'

/-- A revision that changes anything raises the version. -/
def Topology.Ages (t t' : Topology) : Prop := t' = t ∨ t.version < t'.version

theorem Topology.Begins.ages {good : Operation → Prop} {t t' : Topology} (h : t.Begins good t') :
    t.Ages t' := by
  rcases h with ⟨-, operations, -, -, rfl⟩
  exact Or.inr (Nat.lt_succ_self _)

theorem Topology.Cancels.ages {t t' : Topology} (h : t.Cancels t') : t.Ages t' := by
  rcases h with ⟨c, now, hpending, rfl⟩
  refine Or.inr ?_
  simp [cancelChange, hpending]

theorem Update.ages_apply (u : Update) (member : MemberId) (t : Topology) :
    t.Ages (u.apply member t) := by
  rcases u.version_apply member t with hsame | hnext
  · exact Or.inl hsame
  · exact Or.inr (hnext ▸ Nat.lt_succ_self _)

theorem Topology.ages_advanced (t : Topology) (now : Int) (member : MemberId) (u : Update)
    (c : PendingChange) : t.Ages (t.advanced now member u c) := by
  refine Or.inr ?_
  rw [version_advanced]
  rcases u.version_apply member t with hsame | hnext
  · rw [hsame]
    exact Nat.lt_succ_self _
  · omega

/-- What a driver writes: the topology after an update, or after one that confirms the next
operation of the pending change. -/
inductive Topology.Performs (t : Topology) : Topology → Prop
  | updated (u : Update) (member : MemberId) : Performs t (u.apply member t)
  | advanced {c : PendingChange} {op : Operation} {rest : List Operation}
      (pending : t.pending = some c) (remaining : c.remaining = op :: rest) (now : Int)
      (u : Update) : Performs t (t.advanced now op.member u c)

namespace Execution

theorem isNext_iff {id : Nat} {op : Operation} {t : Topology} :
    isNext id op t ↔ ∃ c rest, t.pending = some c ∧ c.id = id ∧ c.remaining = op :: rest := by
  unfold isNext PendingChange.next?
  cases t.pending with
  | none => simp
  | some c => simp [List.head?_eq_some_iff]

theorem starting_eq_ok_iff {id : Nat} {op : Operation} {prepared : Prepared} {t t' : Topology} :
    starting id op prepared t = .ok t' ↔
      isNext id op t ∧ t' = prepared.inProgress.apply op.member t := by
  unfold starting
  by_cases hnext : isNext id op t
  · simp [hnext, eq_comm]
  · simp [hnext]

/-- An operation that is confirmed counts as done if it is still the next one. -/
theorem finishing_eq_ok_iff {now : Int} {id : Nat} {op : Operation} {prepared : Prepared}
    {t t' : Topology} :
    finishing now id op prepared t = .ok t' ↔
      (∃ c rest, t.pending = some c ∧ c.id = id ∧ c.remaining = op :: rest ∧
          t' = t.advanced now op.member prepared.confirmed c) ∨
        (isNext id op t = false ∧ t' = prepared.confirmed.apply op.member t) := by
  unfold finishing
  by_cases hnext : isNext id op t
  · rcases isNext_iff.1 hnext with ⟨c, rest, hpending, hid, hremaining⟩
    have hadvance := Topology.advanceChange_of_pending hpending hremaining now prepared.confirmed
    simp only [hnext, if_true, hadvance, Except.ok.injEq, Bool.true_eq_false, false_and, or_false]
    constructor
    · rintro rfl
      exact ⟨c, rest, hpending, hid, hremaining, rfl⟩
    · rintro ⟨c', rest', hpending', -, -, rfl⟩
      have hc : c = c' := by simpa [hpending] using hpending'
      rw [hc]
  · have hfalse : isNext id op t = false := by simpa using hnext
    rw [if_neg hnext]
    constructor
    · intro h
      have ht' : prepared.confirmed.apply op.member t = t' := by simpa using h
      exact Or.inr ⟨hfalse, ht'.symm⟩
    · rintro (⟨c, rest, hpending, hid, hremaining, -⟩ | ⟨-, rfl⟩)
      · exact absurd (isNext_iff.2 ⟨c, rest, hpending, hid, hremaining⟩) hnext
      · rfl

theorem proceeds_advanced {t : Topology} {c : PendingChange} {op : Operation}
    {rest : List Operation} (hpending : t.pending = some c) (hremaining : c.remaining = op :: rest)
    (now : Int) (u : Update) : t.Proceeds (t.advanced now op.member u c) := by
  refine Or.inr ⟨c, hpending, ?_⟩
  by_cases hrest : rest = []
  · refine Or.inr ⟨now, ?_⟩
    simp [Topology.advanced, Topology.settle, PendingChange.advance, PendingChange.operations,
      hremaining, hrest]
  · refine Or.inl ?_
    simp [Topology.advanced, Topology.settle, PendingChange.advance, hremaining, hrest]

/-- A driver marks an operation by an update, and confirms it by another one, which advances the
change unless the operation was dropped from the ledger by then. -/
theorem revises_performs (settings : Settings) (now : Int) :
    (advance settings now).Revises Topology.Performs := by
  intro t
  cases hpending : t.pending with
  | none => simp [hpending, Process.Revises]
  | some c =>
      cases hnext : t.next? with
      | none => simp [hpending, hnext, Process.Revises]
      | some op =>
          cases hprepare : op.prepare settings t with
          | error e => simp [hpending, hnext, hprepare, Process.Revises]
          | ok prepared =>
              simp only [hpending, hnext, hprepare, Process.Revises, implies_true, and_true]
              refine ⟨?_, ?_⟩
              · intro stored t' hstart
                rcases starting_eq_ok_iff.1 hstart with ⟨-, rfl⟩
                exact .updated _ _
              · intro _ stored t' hfinish
                rcases finishing_eq_ok_iff.1 hfinish with
                  ⟨c', rest, hpending', -, hremaining, rfl⟩ | ⟨-, rfl⟩
                · exact .advanced hpending' hremaining now _
                · exact .updated _ _

theorem revises_advance (settings : Settings) (now : Int) :
    (advance settings now).Revises fun t t' => t.Proceeds t' ∧ t.Ages t' := by
  refine (revises_performs settings now).mono ?_
  intro t t' h
  cases h with
  | updated u member => exact ⟨Or.inl ⟨by simp, by simp⟩, u.ages_apply member t⟩
  | advanced pending remaining now u =>
      exact ⟨proceeds_advanced pending remaining now u, t.ages_advanced now _ u _⟩

end Execution

namespace Interleaving

/-! ## What the driver has left to do -/

def confirming (now : Int) (id : Nat) (op : Operation) (prepared : Prepared) : Process Result :=
  .update (Execution.finishing now id op prepared) fun _ => .done (.advanced (some op))

def calling (now : Int) (id : Nat) (op : Operation) (prepared : Prepared) : Process Result :=
  .call prepared.call (confirming now id op prepared)

def marking (now : Int) (id : Nat) (op : Operation) (prepared : Prepared) : Process Result :=
  .update (Execution.starting id op prepared) fun _ => calling now id op prepared

/-- A driver that has read the topology is through, or goes on to mark the next operation, which is
ready. -/
theorem cases_of_advance {settings : Settings} {now : Int} {next : Topology → Process Result}
    (h : .read next = (Execution.advance settings now).map Result.advanced) (t : Topology) :
    (∃ result, next t = .done result) ∨ (∃ e, next t = .fail e) ∨
      ∃ c op rest prepared, t.pending = some c ∧ c.remaining = op :: rest ∧
        op.prepare settings t = .ok prepared ∧ next t = marking now c.id op prepared := by
  simp only [Execution.advance, Process.map, Process.read.injEq] at h
  rw [h]
  beta_reduce
  cases hpending : t.pending with
  | none => exact Or.inl ⟨_, rfl⟩
  | some c =>
      cases hnext : t.next? with
      | none => exact Or.inl ⟨_, rfl⟩
      | some op =>
          rcases Topology.next?_eq_some_iff.1 hnext with ⟨c', rest, hpending', hremaining⟩
          have hc : c = c' := by simpa [hpending] using hpending'
          subst hc
          cases hprepare : op.prepare settings t with
          | error e => exact Or.inr (Or.inl ⟨e, by simp only [hprepare]; rfl⟩)
          | ok prepared =>
              exact Or.inr (Or.inr ⟨c, op, rest, prepared, rfl, hremaining, hprepare, by
                simp only [hprepare]; rfl⟩)

/-! ## What coordinators admit -/

section Admits

variable {good : Operation → Prop}

theorem admits_change (settings : Settings) (dryRun : Bool) (now : Int) {planner : Planner}
    (yields : planner.Yields good) :
    ((Task.change settings dryRun planner).process now).Revises (Topology.Admits good) :=
  ((Coordinator.revises_request settings now dryRun yields).map _).mono fun _ _ => Or.inl

theorem admits_cancel (id : Nat) (now : Int) :
    ((Task.cancel id).process now).Revises (Topology.Admits good) :=
  ((Coordinator.revises_cancel now id).map _).mono fun _ _ => Or.inr

end Admits

/-! ## Guarantees in runs -/

variable {duties : Party → Task → Prop} {R : Party → Task → Topology → Topology → Prop}
  {s s' : Scene} {e : Event}

/-- Every session is a duty of its party, and guarantees what is asked of that. -/
def Keeping (duties : Party → Task → Prop) (R : Party → Task → Topology → Topology → Prop)
    (s : Scene) : Prop :=
  ∀ i c, s.busy i = some c → duties i c.task ∧ c.rest.Revises (R i c.task)

theorem keeping_start (t : Topology) : Keeping duties R (.start t) := by
  intro i c hc
  simp at hc

theorem Keeping.step
    (guaranteed : ∀ i task now, duties i task → (task.process now).Revises (R i task))
    (h : Keeping duties R s) (step : Step duties s e s') : Keeping duties R s' := by
  refine step.forall_busy h ?_ ?_ ?_ ?_
  · intro i task now duty
    exact ⟨duty, guaranteed i task now duty⟩
  · intro i c next t hc hrest
    rw [hrest] at hc
    exact ⟨hc.1, hc.2 t⟩
  · intro i c revise next t hc hrest
    rw [hrest] at hc
    exact ⟨hc.1, hc.2.2 t⟩
  · intro i c call next hc hrest
    rw [hrest] at hc
    exact ⟨hc.1, hc.2⟩

theorem Keeping.run {events : List Event}
    (guaranteed : ∀ i task now, duties i task → (task.process now).Revises (R i task))
    (h : Keeping duties R s) (run : Run (Step duties) s events s') : Keeping duties R s' :=
  run.invariant h fun _ _ _ hkeeping step => hkeeping.step guaranteed step

theorem Step.stored_eq_or_wrote (step : Step duties s e s') :
    s'.stored = s.stored ∨ ∃ i task, e = .wrote i task s.stored s'.stored := by
  cases step with
  | @wrote i c revise next t busy rest revised => exact Or.inr ⟨i, c.task, rfl⟩
  | _ => exact Or.inl rfl

theorem Keeping.wrote {i : Party} {task : Task} {t t' : Topology} (h : Keeping duties R s)
    (step : Step duties s (.wrote i task t t') s') :
    t = s.stored ∧ t' = s'.stored ∧ duties i task ∧ R i task t t' := by
  cases step with
  | @wrote i c revise next t busy rest revised =>
      have hc := h i c busy
      rw [rest] at hc
      exact ⟨rfl, rfl, hc.1, hc.2.1 _ _ revised⟩

end Interleaving

end ReplicaCluster
