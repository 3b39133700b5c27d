import ReplicaCluster.Proofs.Execution.Undisturbed
import ReplicaCluster.Proofs.Interleaving.Guarantees
import ReplicaCluster.Proofs.Management.Handler
import ReplicaCluster.Proofs.Store.Revision

/-!
# What failures and questions leave behind

Other parties work on a store too, and any step of a process may fail.  A request that fails, or
that only asks, leaves the store as the others alone would have left it.  An attempt at an
operation that fails leaves at most the mark of that operation: the ledger stays as it was.

`Others` stands for whatever may happen around a process.  Two shapes of processes carry the
argument: those that only read (`Process.ReadsOnly`), and those for which a revision is the last
thing that they do (`Process.WritesLast`).
-/

namespace ReplicaCluster

/-! ## A store among other parties -/

/-- The kinds of steps before which other parties get to act. -/
inductive Occasion
  | read
  | update
  | call (call : Call)

/-- A store, with whatever the other parties keep for themselves. -/
structure Shared (σ : Type) where
  store : Store
  others : σ

def Shared.put {σ : Type} (s : Shared σ) (t : Topology) : Shared σ :=
  { s with store := s.store.write t }

/-- The other parties at a store.  Before each step of a process they may do anything to the store,
and they may keep the step from being taken. -/
structure Others (σ : Type) where
  act : Occasion → Shared σ → Option Failure × Shared σ

namespace Others

variable {σ : Type} {o : Others σ} {r r' r'' : Recorded (Shared σ)}

def host (o : Others σ) : Host (Shared σ) where
  read s :=
    match o.act .read s with
    | (some f, s) => (.error f, s)
    | (none, s) => (s.store.topology, s)
  update revise s :=
    match o.act .update s with
    | (some f, s) => (.error f, s)
    | (none, s) =>
        let (result, store) := s.store.update revise
        (result, { s with store })
  call c s :=
    match o.act (.call c) s with
    | (some f, s) => (.error f, s)
    | (none, s) => (.ok (), s)

/-- What the others make of a store by themselves. -/
def pass (o : Others σ) (occasions : List Occasion) (s : Shared σ) : Shared σ :=
  occasions.foldl (fun s occasion => (o.act occasion s).2) s

/-- From one record to the other nothing was written but by the others. -/
def Alone (o : Others σ) (r r' : Recorded (Shared σ)) : Prop :=
  r'.writes = r.writes ∧ ∃ occasions, r'.state = o.pass occasions r.state

theorem pass_append (before after : List Occasion) (s : Shared σ) :
    o.pass (before ++ after) s = o.pass after (o.pass before s) := by
  simp [pass]

theorem Alone.refl (r : Recorded (Shared σ)) : o.Alone r r := ⟨rfl, [], rfl⟩

theorem Alone.trans (h : o.Alone r r') (h' : o.Alone r' r'') : o.Alone r r'' := by
  rcases h with ⟨hwrites, before, hstate⟩
  rcases h' with ⟨hwrites', after, hstate'⟩
  refine ⟨hwrites'.trans hwrites, before ++ after, ?_⟩
  calc r''.state
    _ = o.pass after (o.pass before r.state) := by rw [hstate', hstate]
    _ = o.pass (before ++ after) r.state := (pass_append before after r.state).symm

/-! ### Single steps -/

theorem alone_of_read {result : Except Failure Topology}
    (h : o.host.recorded.read r = (result, r')) : o.Alone r r' := by
  have hr' : (o.host.recorded.read r).2 = r' := congrArg Prod.snd h
  subst hr'
  refine ⟨rfl, [.read], ?_⟩
  rcases hact : o.act .read r.state with ⟨fault, s⟩
  cases fault with
  | none => simp [Host.recorded, host, pass, hact]
  | some f => simp [Host.recorded, host, pass, hact]

theorem alone_of_call {c : Call} {result : Except Failure Unit}
    (h : o.host.recorded.call c r = (result, r')) : o.Alone r r' := by
  have hr' : (o.host.recorded.call c r).2 = r' := congrArg Prod.snd h
  subst hr'
  refine ⟨rfl, [.call c], ?_⟩
  rcases hact : o.act (.call c) r.state with ⟨fault, s⟩
  cases fault with
  | none => simp [Host.recorded, host, pass, hact]
  | some f => simp [Host.recorded, host, pass, hact]

/-- A revision fails and writes nothing, or it is recorded as the one thing that was written since
the others had acted. -/
theorem update_cases (revise : Revision) (r : Recorded (Shared σ)) :
    (∃ e r', o.host.recorded.update revise r = (.error e, r') ∧ o.Alone r r') ∨
      ∃ found t, (o.pass [.update] r.state).store.topology = .ok found ∧ revise found = .ok t ∧
        o.host.recorded.update revise r =
          (.ok t, ⟨(o.pass [.update] r.state).put t, r.writes ++ [t], r.calls⟩) := by
  rcases hact : o.act .update r.state with ⟨fault, s⟩
  have hpass : o.pass [.update] r.state = s := by simp [pass, hact]
  cases fault with
  | some f =>
      -- The others acted and kept the revision from being made.
      refine Or.inl ⟨f, { r with state := s }, ?_, rfl, [.update], hpass.symm⟩
      simp [Host.recorded, host, hact]
  | none =>
      rcases s.store.update_cases revise with ⟨e, hupdate⟩ | ⟨found, t, hfound, hrevise, hupdate⟩
      · refine Or.inl ⟨e, { r with state := s }, ?_, rfl, [.update], hpass.symm⟩
        simp [Host.recorded, host, hact, hupdate]
      · refine Or.inr ⟨found, t, ?_, hrevise, ?_⟩
        · simpa [hpass] using hfound
        · simp [Host.recorded, host, hact, hupdate, hpass, Shared.put]

theorem alone_of_update_error {revise : Revision} {e : Failure}
    (h : o.host.recorded.update revise r = (.error e, r')) : o.Alone r r' := by
  rcases update_cases (o := o) revise r with ⟨e', r₁, hupdate, halone⟩ | ⟨found, t, -, -, hupdate⟩
  · have hr : r₁ = r' := congrArg Prod.snd (hupdate.symm.trans h)
    exact hr ▸ halone
  · simp [h] at hupdate

theorem wrote_of_update_ok {revise : Revision} {t : Topology}
    (h : o.host.recorded.update revise r = (.ok t, r')) :
    ∃ found, (o.pass [.update] r.state).store.topology = .ok found ∧ revise found = .ok t ∧
      r' = ⟨(o.pass [.update] r.state).put t, r.writes ++ [t], r.calls⟩ := by
  rcases update_cases (o := o) revise r with
    ⟨e, r₁, hupdate, -⟩ | ⟨found, t', hfound, hrevise, hupdate⟩
  · simp [h] at hupdate
  · have hsame : t = t' ∧ r' = ⟨(o.pass [.update] r.state).put t', r.writes ++ [t'], r.calls⟩ := by
      simpa [h] using hupdate
    exact ⟨found, hfound, hsame.1 ▸ hrevise, hsame.1 ▸ hsame.2⟩

end Others

/-! ## Runs that fail -/

namespace Process

variable {σ α : Type} {host : Host σ} {s s' : σ} {e : Failure}

theorem run_read_eq_error {next : Topology → Process α}
    (h : (Process.read next).run host s = (.error e, s')) :
    host.read s = (.error e, s') ∨
      ∃ t s₁, host.read s = (.ok t, s₁) ∧ (next t).run host s₁ = (.error e, s') := by
  rcases hread : host.read s with ⟨result, s₁⟩
  cases result with
  | error e' => exact Or.inl (by simpa [run, hread] using h)
  | ok t => exact Or.inr ⟨t, s₁, rfl, by simpa [run, hread] using h⟩

theorem run_update_eq_error {revise : Revision} {next : Topology → Process α}
    (h : (Process.update revise next).run host s = (.error e, s')) :
    host.update revise s = (.error e, s') ∨
      ∃ t s₁, host.update revise s = (.ok t, s₁) ∧ (next t).run host s₁ = (.error e, s') := by
  rcases hupdate : host.update revise s with ⟨result, s₁⟩
  cases result with
  | error e' => exact Or.inl (by simpa [run, hupdate] using h)
  | ok t => exact Or.inr ⟨t, s₁, rfl, by simpa [run, hupdate] using h⟩

theorem run_call_eq_error {c : Call} {next : Process α}
    (h : (Process.call c next).run host s = (.error e, s')) :
    host.call c s = (.error e, s') ∨
      ∃ s₁, host.call c s = (.ok (), s₁) ∧ next.run host s₁ = (.error e, s') := by
  rcases hcall : host.call c s with ⟨result, s₁⟩
  cases result with
  | error e' => exact Or.inl (by simpa [run, hcall] using h)
  | ok u => exact Or.inr ⟨s₁, rfl, by simpa [run, hcall] using h⟩

end Process

/-! ## Shapes of processes -/

namespace Process

variable {σ α β : Type} {o : Others σ}

/-- The process neither revises the store nor calls a member. -/
def ReadsOnly : Process α → Prop
  | .done _ | .fail _ => True
  | .read next => ∀ t, (next t).ReadsOnly
  | .update _ _ | .call _ _ => False

/-- Once it has revised the store the process has its result. -/
def WritesLast : Process α → Prop
  | .done _ | .fail _ => True
  | .read next => ∀ t, (next t).WritesLast
  | .update _ next => ∀ t, ∃ result, next t = .done result
  | .call _ next => next.WritesLast

theorem ReadsOnly.map {p : Process α} (h : p.ReadsOnly) (f : α → β) : (p.map f).ReadsOnly := by
  induction p with
  | done result => trivial
  | fail failure => trivial
  | read next ih =>
      intro t
      exact ih t (h t)
  | update revise next ih => exact h.elim
  | call c next ih => exact h.elim

theorem WritesLast.map {p : Process α} (h : p.WritesLast) (f : α → β) : (p.map f).WritesLast := by
  induction p with
  | done result => trivial
  | fail failure => trivial
  | read next ih =>
      intro t
      exact ih t (h t)
  | update revise next ih =>
      intro t
      rcases h t with ⟨result, hnext⟩
      exact ⟨f result, by simp [hnext, Process.map]⟩
  | call c next ih => exact ih h

/-- A process that only reads writes nothing, however it ends. -/
theorem ReadsOnly.alone {p : Process α} (h : p.ReadsOnly) :
    ∀ r, o.Alone r (p.run o.host.recorded r).2 := by
  induction p with
  | done result => exact Others.Alone.refl
  | fail failure => exact Others.Alone.refl
  | read next ih =>
      intro r
      rcases hresult : o.host.recorded.read r with ⟨result, r'⟩
      have hread : o.Alone r r' := Others.alone_of_read hresult
      cases result with
      | error e => simpa [run, hresult] using hread
      | ok t => simpa [run, hresult] using hread.trans (ih t (h t) r')
  | update revise next ih => exact h.elim
  | call c next ih => exact h.elim

/-- A process that revises last writes nothing if it fails. -/
theorem WritesLast.alone_of_error {p : Process α} (h : p.WritesLast) :
    ∀ {r r' : Recorded (Shared σ)} {e : Failure}, p.run o.host.recorded r = (.error e, r') →
      o.Alone r r' := by
  -- By induction on the process: each step either failed itself, or what follows it did.
  induction p with
  | done result =>
      intro r r' e hrun
      simp [run] at hrun
  | fail failure =>
      intro r r' e hrun
      have hr : r = r' := congrArg Prod.snd hrun
      exact hr ▸ Others.Alone.refl r
  | read next ih =>
      intro r r' e hrun
      rcases run_read_eq_error hrun with hfailed | ⟨t, r₁, hread, hnext⟩
      · exact Others.alone_of_read hfailed
      · exact (Others.alone_of_read hread).trans (ih t (h t) hnext)
  | update revise next ih =>
      intro r r' e hrun
      rcases run_update_eq_error hrun with hfailed | ⟨t, r₁, -, hnext⟩
      · exact Others.alone_of_update_error hfailed
      · -- After the revision there is nothing left that can fail.
        rcases h t with ⟨result, hdone⟩
        simp [hdone, run] at hnext
  | call c next ih =>
      intro r r' e hrun
      rcases run_call_eq_error hrun with hfailed | ⟨r₁, hcall, hnext⟩
      · exact Others.alone_of_call hfailed
      · exact (Others.alone_of_call hcall).trans (ih h hnext)

end Process

/-! ## Requests -/

namespace Coordinator

variable {settings : Settings} {now : Int} {planner : Planner}

theorem writesLast_request (dryRun : Bool) :
    (request settings now dryRun planner).WritesLast := by
  intro t
  cases hpropose : propose settings now planner t with
  | error e => simp [hpropose, Process.WritesLast]
  | ok proposal =>
      cases proposal with
      | none => simp [hpropose, Process.WritesLast]
      | some p =>
          cases dryRun with
          | true => simp [hpropose, Process.WritesLast]
          | false => simp [hpropose, Process.WritesLast]

theorem readsOnly_dryRun : (request settings now true planner).ReadsOnly := by
  intro t
  cases hpropose : propose settings now planner t with
  | error e => simp [hpropose, Process.ReadsOnly]
  | ok proposal =>
      cases proposal with
      | none => simp [hpropose, Process.ReadsOnly]
      | some p => simp [hpropose, Process.ReadsOnly]

theorem writesLast_cancel (change : Nat) : (cancel now change).WritesLast :=
  fun t => ⟨t, rfl⟩

theorem writesLast_recover (members : List MemberId) :
    (recover settings now members).WritesLast := by
  intro t
  cases hpropose : proposeRecovery settings now members t with
  | error e => simp [hpropose, Process.WritesLast]
  | ok p => simp [hpropose, Process.WritesLast]

theorem readsOnly_topology : topology.ReadsOnly := fun _ => trivial

theorem writesLast_topology : topology.WritesLast := fun _ => trivial

end Coordinator

namespace Request

variable {σ : Type} {o : Others σ} {settings : Settings} {now : Int} {request : Request}
  {p : Process Response}

theorem Handled.writesLast (h : request.Handled settings now p) : p.WritesLast := by
  cases h with
  | refused silent => trivial
  | change intent asked reaches => exact (Coordinator.writesLast_request _).map _
  | cancel id => exact (Coordinator.writesLast_cancel id).map _
  | recover members reaches => exact (Coordinator.writesLast_recover members).map _
  | topology => exact Coordinator.writesLast_topology.map _

theorem Handled.readsOnly (h : request.Handled settings now p)
    (asks : request = .topology ∨ request.isDryRun = true) : p.ReadsOnly := by
  cases h with
  | refused silent => trivial
  | change intent asked reaches =>
      rcases asks with rfl | hdry
      · simp [intent?] at asked
      · rw [hdry]
        exact Coordinator.readsOnly_dryRun.map _
  | cancel id => simp [isDryRun] at asks
  | recover members reaches => simp [isDryRun] at asks
  | topology => exact Coordinator.readsOnly_topology.map _

/-- Nothing is written for a change that turns out to need no operations. -/
theorem Handled.alone_of_empty_plan (h : request.Handled settings now p) {intent : Intent}
    {t : Topology} {r : Recorded (Shared σ)} (hintent : request.intent? settings = some intent)
    (hread : (o.host.recorded.read r).1 = .ok t) (hplan : intent.planner t = .ok []) :
    o.Alone r (p.run o.host.recorded r).2 := by
  cases h with
  | refused silent => exact Others.Alone.refl r
  | change intent' asked reaches =>
      have hsame : intent' = intent := by simpa [asked] using hintent
      rcases hresult : o.host.recorded.read r with ⟨result, r'⟩
      have halone : o.Alone r r' := Others.alone_of_read hresult
      have hok : result = .ok t := by simpa [hresult] using hread
      subst hsame hok
      -- What was read needs no operations, so there is no proposal to store.
      have hpropose : Coordinator.propose settings now intent'.planner t = .ok none := by
        simp [Coordinator.propose, hplan, bind, Except.bind, pure, Except.pure]
      simpa [Request.change, Coordinator.request, Process.map, Process.run, hresult, hpropose]
        using halone
  | cancel id => simp [intent?] at hintent
  | recover members reaches => simp [intent?] at hintent
  | topology => simp [intent?] at hintent

end Request

/-! ## Attempts at an operation -/

namespace Execution

variable {σ : Type} {o : Others σ} {settings : Settings} {now : Int}

/-- What an attempt has left to do once the operation is marked. -/
def closing (now : Int) (change : Nat) (op : Operation) (prepared : Prepared) :
    Process (Option Operation) :=
  .call prepared.call <| .update (finishing now change op prepared) fun _ => .done (some op)

theorem writesLast_closing (now : Int) (change : Nat) (op : Operation) (prepared : Prepared) :
    (closing now change op prepared).WritesLast :=
  fun _ => ⟨some op, rfl⟩

/-- What an attempt does with the topology that it has read: nothing but to end, or to mark the
operation, call its member and confirm it. -/
inductive Goes (settings : Settings) (now : Int) (t : Topology) : Process (Option Operation) → Prop
  | nowhere {p : Process (Option Operation)} (readsOnly : p.ReadsOnly) : Goes settings now t p
  | on (change : Nat) (op : Operation) (prepared : Prepared) (next : isNext change op t)
      (prepares : op.prepare settings t = .ok prepared) :
      Goes settings now t <|
        .update (starting change op prepared) fun _ => closing now change op prepared

theorem exists_goes (settings : Settings) (now : Int) :
    ∃ next, advance settings now = .read next ∧ ∀ t, Goes settings now t (next t) := by
  refine ⟨_, rfl, ?_⟩
  intro t
  cases hpending : t.pending with
  | none => exact .nowhere trivial
  | some c =>
      cases hnext : t.next? with
      | none => exact .nowhere trivial
      | some op =>
          have hop : c.next? = some op := by simpa [Topology.next?, hpending] using hnext
          cases hprepare : op.prepare settings t with
          | error e => exact .nowhere (by simp [hprepare, Process.ReadsOnly])
          | ok prepared =>
              have hisNext : isNext c.id op t := by simp [isNext, hpending, hop]
              simp only [hprepare]
              exact .on c.id op prepared hisNext hprepare

/-- What a failed attempt leaves if it came as far as its first write: the operation, still the next
one of the same change, was marked as under way on the topology that was found, and nothing else
was written before or after. -/
structure MarksOnly (o : Others σ) (settings : Settings) (r r' : Recorded (Shared σ)) (change : Nat)
    (op : Operation) (prepared : Prepared) (seen found : Topology) : Prop where
  read : (o.host.recorded.read r).1 = .ok seen
  prepares : op.prepare settings seen = .ok prepared
  next_seen : isNext change op seen
  next_found : isNext change op found
  wrote : r'.writes = r.writes ++ [prepared.inProgress.apply op.member found]
  others : ∃ before after, (o.pass before r.state).store.topology = .ok found ∧
    r'.state =
      o.pass after ((o.pass before r.state).put (prepared.inProgress.apply op.member found))

/-- Once the operation is marked, a failure can only strike before the second write. -/
theorem exists_marksOnly_of_rest {r r₁ r₂ r' : Recorded (Shared σ)} {seen marked : Topology}
    {change : Nat} {op : Operation} {prepared : Prepared} {e : Failure} (halone : o.Alone r r₁)
    (hread : o.host.recorded.read r = (.ok seen, r₁))
    (hprepares : op.prepare settings seen = .ok prepared) (hnext : isNext change op seen)
    (hmark : o.host.recorded.update (starting change op prepared) r₁ = (.ok marked, r₂))
    (hrest : (closing now change op prepared).run o.host.recorded r₂ = (.error e, r')) :
    ∃ found, MarksOnly o settings r r' change op prepared seen found := by
  rcases Others.wrote_of_update_ok hmark with ⟨found, hfound, hstart, rfl⟩
  rcases starting_eq_ok_iff.1 hstart with ⟨hnextFound, rfl⟩
  rcases halone with ⟨hwrites, before, hstate⟩
  rcases (writesLast_closing now change op prepared).alone_of_error hrest with
    ⟨hwrites', after, hstate'⟩
  -- The others acted before the read and again before the mark; both count as before it.
  have hbefore : o.pass [.update] r₁.state = o.pass (before ++ [.update]) r.state := by
    rw [hstate, Others.pass_append]
  rw [hbefore] at hfound hstate'
  exact ⟨found, by simp [hread], hprepares, hnext, hnextFound, by simp [hwrites', hwrites],
    before ++ [.update], after, hfound, hstate'⟩

/-- An attempt may fail when it reads, checks or marks, and has written nothing then; or later, and
has only marked the operation. -/
theorem alone_or_marksOnly_of_error {r r' : Recorded (Shared σ)} {e : Failure}
    (h : (advance settings now).run o.host.recorded r = (.error e, r')) :
    o.Alone r r' ∨ ∃ change op prepared seen found,
      MarksOnly o settings r r' change op prepared seen found := by
  rcases exists_goes settings now with ⟨next, hadvance, hgoes⟩
  rw [hadvance] at h
  rcases Process.run_read_eq_error h with hfailed | ⟨seen, r₁, hread, hrun⟩
  · exact Or.inl (Others.alone_of_read hfailed)
  · have halone : o.Alone r r₁ := Others.alone_of_read hread
    have hseen := hgoes seen
    -- Forget where the rest of the process came from, so that its shape can be looked at.
    generalize next seen = p at hrun hseen
    cases hseen with
    | nowhere readsOnly =>
        have hend : o.Alone r₁ (p.run o.host.recorded r₁).2 := readsOnly.alone r₁
        rw [hrun] at hend
        exact Or.inl (halone.trans hend)
    | on change op prepared hnext hprepares =>
        rcases Process.run_update_eq_error hrun with hfailed | ⟨marked, r₂, hmark, hrest⟩
        · exact Or.inl (halone.trans (Others.alone_of_update_error hfailed))
        · exact Or.inr ⟨change, op, prepared, seen,
            exists_marksOnly_of_rest halone hread hprepares hnext hmark hrest⟩

end Execution

/-- A request that fails, that asks for the topology or for a dry run, or that needs no operations,
leaves the store as the other parties alone would have left it.  A failed attempt at an operation
does so too, or else it has written exactly once: it marked the next operation of the pending
change, and the ledger stayed as it was. -/
theorem failures_and_questions_leave_no_trace {σ : Type} (o : Others σ) (settings : Settings)
    (now : Int) (s : Shared σ) :
    let start : Recorded (Shared σ) := ⟨s, [], []⟩
    (∀ request : Request,
      let handled := (request.handle settings now).run o.host.recorded start
      ((∃ e, handled.1 = .error e) ∨ request = .topology ∨ request.isDryRun = true ∨
          ∃ intent t, request.intent? settings = some intent ∧
            (o.host.recorded.read start).1 = .ok t ∧ intent.planner t = .ok []) →
        handled.2.writes = [] ∧ ∃ occasions, handled.2.state = o.pass occasions s) ∧
      ∀ e after, (Execution.advance settings now).run o.host.recorded start = (.error e, after) →
        (after.writes = [] ∧ ∃ occasions, after.state = o.pass occasions s) ∨
          ∃ change op prepared seen found,
            Execution.MarksOnly o settings start after change op prepared seen found ∧
            after.writes = [prepared.inProgress.apply op.member found] ∧
            (prepared.inProgress.apply op.member found).pending = found.pending ∧
            (prepared.inProgress.apply op.member found).lastChange = found.lastChange := by
  intro start
  refine ⟨?_, ?_⟩
  · intro request handled hcase
    have hhandled := Request.handled settings now request
    rcases hcase with ⟨e, hfail⟩ | htopology | hdry | ⟨intent, t, hintent, hread, hplan⟩
    · exact hhandled.writesLast.alone_of_error (Prod.ext hfail rfl)
    · exact (hhandled.readsOnly (Or.inl htopology)).alone start
    · exact (hhandled.readsOnly (Or.inr hdry)).alone start
    · exact hhandled.alone_of_empty_plan hintent hread hplan
  · intro e after hrun
    rcases Execution.alone_or_marksOnly_of_error hrun with
      halone | ⟨change, op, prepared, seen, found, hmarks⟩
    · exact Or.inl halone
    · exact Or.inr ⟨change, op, prepared, seen, found, hmarks, hmarks.wrote,
        Update.pending_apply _ _ _, Update.lastChange_apply _ _ _⟩

/-- Another party writes before every revision, and no member can be reached.  A request loses the
race, a dry run does not care, and an attempt at an operation ends with the operation marked. -/
theorem failures_and_questions_leave_no_trace_racing :
    let o : Others Unit := {
      act := fun occasion s =>
        match occasion, s.store.topology with
        | .update, .ok t => (none, s.put (t.addMember "9" (.active ∅)))
        | .call _, _ => (some ⟨.internal, "unreachable"⟩, s)
        | _, _ => (none, s) }
    let settings : Settings := {}
    let idle := Topology.initial.addMember "1" (.active ∅)
    let busy : Topology := { idle with pending := some ⟨7, [⟨"2", .joinCluster⟩], []⟩ }
    let handle (request : Request) :=
      (request.handle settings 5).run o.host.recorded ⟨⟨.memory idle, ()⟩, [], []⟩
    let advance := (Execution.advance settings 5).run o.host.recorded ⟨⟨.memory busy, ()⟩, [], []⟩
    (handle (.addMembers ["2"] false)).1 = refuse .planOutdated ∧
      (handle (.addMembers ["2"] false)).2.writes = [] ∧
      (handle (.addMembers ["2"] true)).2.writes = [] ∧
      (handle (.addMembers ["1"] false)).2.writes = [] ∧
      advance.1 = .error ⟨.internal, "unreachable"⟩ ∧
      ∃ found marked : Topology, advance.2.writes = [marked] ∧ marked.pending = found.pending ∧
        marked.lastChange = found.lastChange := by
  intro o settings idle busy handle advance
  have hlost : (handle (.addMembers ["2"] false)).1 = refuse .planOutdated := by rfl
  have hempty : (Intent.addMembers ["1"] 1).planner idle = .ok [] := by decide +kernel
  have hfailed : advance.1 = .error ⟨.internal, "unreachable"⟩ := by rfl
  have hwrote : advance.2.writes.length = 1 := by rfl
  rcases failures_and_questions_leave_no_trace o settings 5 ⟨.memory idle, ()⟩ with ⟨hhandle, -⟩
  rcases failures_and_questions_leave_no_trace o settings 5 ⟨.memory busy, ()⟩ with ⟨-, hadvance⟩
  refine ⟨hlost, (hhandle _ (Or.inl ⟨_, hlost⟩)).1,
    (hhandle (.addMembers ["2"] true) (Or.inr (Or.inr (Or.inl rfl)))).1,
    (hhandle (.addMembers ["1"] false) (Or.inr (Or.inr (Or.inr ⟨_, idle, rfl, rfl, hempty⟩)))).1,
    hfailed, ?_⟩
  rcases hadvance _ advance.2 (Prod.ext hfailed rfl) with
    ⟨hnone, -⟩ | ⟨change, op, prepared, seen, found, -, hmarked, hpending, hlast⟩
  · simp [hnone] at hwrote
  · exact ⟨found, _, hmarked, hpending, hlast⟩

end ReplicaCluster
