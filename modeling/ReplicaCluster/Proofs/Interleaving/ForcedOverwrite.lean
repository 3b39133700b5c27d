import ReplicaCluster.Proofs.Execution.Overtaken
import ReplicaCluster.Proofs.Interleaving.Cancellation
import ReplicaCluster.Proofs.Interleaving.Driver
import ReplicaCluster.Proofs.Management.Handler
import ReplicaCluster.Proofs.Planning.Recovery

/-!
# Force overwrites beside the driver

A force overwrite is planned on an idle topology, and then stored over whatever is there by then.  A
cancel makes a topology idle while the driver is still in the middle of an operation, whose second
write may thus come before or after that of the force overwrite.

One coordinator, which does one thing at a time, begins no change between planning a force overwrite
and storing it, so the driver starts nothing in the meantime either.  That limits what the two find
when they write: the driver finds the members as it has marked them, up to those that were dropped
(`Afoot`), and the force overwrite finds the topology that it was planned on, up to one confirmation
of the driver (`Awaited`).  `Steady` is the invariant that says so, and `Drives` and `Oversees` are
all that one step can do to the store.
-/

namespace ReplicaCluster

theorem Update.members_apply_congr (u : Update) (m : MemberId) {t t' : Topology}
    (h : t.members = t'.members) : (u.apply m t).members = (u.apply m t').members := by
  cases u <;> simp [apply, Topology.updateMember, Topology.modifyMember, Topology.removeMember,
    Topology.overwriteReplicas, h]

namespace Interleaving

/-! ## Duties -/

/-- One coordinator handles requests of any kind, one after the other, and the driver carries out the
changes. -/
def solitary : Party → Task → Prop
  | .driver, .advance _ => True
  | .coordinator n, .change .. | .coordinator n, .cancel _ | .coordinator n, .manage .. => n = 0
  | _, _ => False

def Task.Forces (task : Task) (members : List MemberId) : Prop :=
  ∃ settings, task = .manage settings (.forceOverwrite members)

/-- Whether the driver is between the two writes of an operation. -/
def Scene.midway (s : Scene) : Bool :=
  (s.busy .driver).any fun c => c.written && match c.rest with
    | .done _ | .fail _ => false
    | _ => true

/-- No force overwrite reads the topology while the driver is between the two writes of an
operation. -/
def Scene.Patient (s : Scene) (e : Event) : Prop :=
  ∀ i c members, e = .read i → s.busy i = some c → c.task.Forces members → s.midway = false

/-- A force overwrite among the events has dropped the member. -/
def Dropped (events : List Event) (id : MemberId) : Prop :=
  ∃ i task members t t', .wrote i task t t' ∈ events ∧ task.Forces members ∧ id ∈ members

theorem Dropped.mono {events more : List Event} {id : MemberId} (h : Dropped events id)
    (hsub : events ⊆ more) : Dropped more id := by
  rcases h with ⟨i, task, members, t, t', hmem, hforces⟩
  exact ⟨i, task, members, t, t', hsub hmem, hforces⟩

variable {calm : Prop} {s s' : Scene} {e : Event} {events : List Event} {t t' : Topology}
  {task : Task} {op : Operation} {prepared : Prepared} {now : Int} {id : Nat}

theorem midway_eq (h : s'.busy .driver = s.busy .driver) : s'.midway = s.midway := by
  simp only [Scene.midway, h]

/-! ## The driver's side -/

/-- The driver has marked the operation, on a topology on which it was ready.  Since then members may
have been dropped by force, unless all is calm, and nothing else has happened to them. -/
def Afoot (calm : Prop) (events : List Event) (stored : Topology) (task : Task) (op : Operation)
    (prepared : Prepared) : Prop :=
  ∃ settings t₀ before between, Ready settings t₀ op prepared ∧
    events = before ++ .wrote .driver task t₀ (prepared.inProgress.apply op.member t₀) :: between ∧
    ∀ id, stored.member? id = (prepared.inProgress.apply op.member t₀).member? id ∨
      (¬ calm ∧ stored.member? id = none ∧ Dropped between id)

namespace Afoot

theorem ready (h : Afoot calm events t task op prepared) :
    ∃ settings t₀, Ready settings t₀ op prepared := by
  rcases h with ⟨settings, t₀, -, -, hready, -, -⟩
  exact ⟨settings, t₀, hready⟩

theorem congr (h : Afoot calm events t task op prepared) (members : t'.members = t.members)
    (e : Event) : Afoot calm (events ++ [e]) t' task op prepared := by
  rcases h with ⟨settings, t₀, before, between, hready, hevents, hmembers⟩
  refine ⟨settings, t₀, before, between ++ [e], hready, by simp [hevents], ?_⟩
  intro id
  have hsame : t'.member? id = t.member? id := by simp only [Topology.member?, members]
  rw [hsame]
  rcases hmembers id with hkept | ⟨hcalm, hnone, hdropped⟩
  · exact Or.inl hkept
  · exact Or.inr ⟨hcalm, hnone, hdropped.mono (List.subset_append_left _ _)⟩

/-- A force overwrite drops further members. -/
theorem forced {i : Party} {own : Task} {dropped : List MemberId} {stored stored' : Topology}
    (h : Afoot calm events t task op prepared) (restless : ¬ calm) (forces : own.Forces dropped)
    (members : ∀ id, t'.member? id = if id ∈ dropped then none else t.member? id) :
    Afoot calm (events ++ [.wrote i own stored stored']) t' task op prepared := by
  rcases h with ⟨settings, t₀, before, between, hready, hevents, hmembers⟩
  refine ⟨settings, t₀, before, between ++ [.wrote i own stored stored'], hready, by simp [hevents],
    ?_⟩
  intro id
  rw [members]
  by_cases hid : id ∈ dropped
  · rw [if_pos hid]
    exact Or.inr ⟨restless, rfl, i, own, dropped, stored, stored', List.mem_concat_self, forces,
      hid⟩
  · rw [if_neg hid]
    rcases hmembers id with hkept | ⟨hcalm, hnone, hdropped⟩
    · exact Or.inl hkept
    · exact Or.inr ⟨hcalm, hnone, hdropped.mono (List.subset_append_left _ _)⟩

end Afoot

/-- How far the driver has come on a store that holds `stored`, whether it has written yet, and what
is left for it to do. -/
inductive Course (calm : Prop) (events : List Event) (stored : Topology) (task : Task) (now : Int) :
    Bool → Process Result → Prop
  | reading {settings : Settings} {rest : Process Result}
      (h : rest = (Execution.advance settings now).map .advanced) :
      Course calm events stored task now false rest
  /-- What was prepared is ready still, or its change has ended and it will be refused. -/
  | marking {settings : Settings} {t : Topology} {id : Nat} {op : Operation} {prepared : Prepared}
      (ready : Ready settings t op prepared)
      (current : (∃ c, stored.pending = some c ∧ c.id = id ∧ stored.members = t.members) ∨
        Beyond id stored) :
      Course calm events stored task now false (marking now id op prepared)
  | calling {id : Nat} {op : Operation} {prepared : Prepared}
      (afoot : Afoot calm events stored task op prepared) :
      Course calm events stored task now true (calling now id op prepared)
  | confirming {id : Nat} {op : Operation} {prepared : Prepared}
      (afoot : Afoot calm events stored task op prepared) :
      Course calm events stored task now true (confirming now id op prepared)
  | done {written : Bool} (result : Result) :
      Course calm events stored task now written (.done result)
  | fail {written : Bool} (e : Failure) : Course calm events stored task now written (.fail e)

/-- What one step of the driver can do to the store. -/
inductive Drives (calm : Prop) (events : List Event) (s : Scene) (e : Event) (s' : Scene) : Prop
  | kept (stored : s'.stored = s.stored) (midway : s'.midway = true → s.midway = true)
  /-- The driver marks the next operation, which is ready. -/
  | marked {settings : Settings} {t : Topology} {id : Nat} {op : Operation} {prepared : Prepared}
      (ready : Ready settings t op prepared) (next : Execution.isNext id op s.stored)
      (stored : s'.stored = prepared.inProgress.apply op.member s.stored)
  /-- The driver confirms the operation that it has marked. -/
  | confirmed {task : Task} {now : Int} {id : Nat} {op : Operation} {prepared : Prepared}
      (afoot : Afoot calm events s.stored task op prepared) (midway : s.midway = true)
      (rested : s'.midway = false)
      (finished : Execution.finishing now id op prepared s.stored = .ok s'.stored)
      (event : e = .wrote .driver task s.stored s'.stored)

/-! ## The coordinator's side -/

/-- What a force overwrite that was planned on `t` finds while it waits to be stored: `t` itself, or,
unless all is calm, `t` with the operation confirmed that the driver was in the middle of. -/
structure Awaited (calm : Prop) (stored : Topology) (midway : Bool) (t : Topology) : Prop where
  pending : stored.pending = none
  lastChange : stored.lastChange = t.lastChange
  members : (stored.members = t.members ∧ (calm → midway = false)) ∨
    (¬ calm ∧ midway = false ∧ ∃ settings t₀ op prepared, Ready settings t₀ op prepared ∧
      stored.members = (prepared.confirmed.apply op.member t).members)

/-- How far a force overwrite has come: it has not read yet, it is about to store what it has planned
on the topology that it has read, or it is over. -/
inductive Forcing (calm : Prop) (stored : Topology) (midway : Bool) (members : List MemberId)
    (seen : Option Topology) : Process Result → Prop
  | asked {settings : Settings} {now : Int} {rest : Process Result}
      (h : rest = ((Coordinator.recover settings now members).map
        fun r => Response.change r.summary).map .replied) :
      Forcing calm stored midway members seen rest
  | planned {settings : Settings} {now : Int} {t : Topology} {proposal : Coordinator.Proposal}
      {next : Topology → Process Result} (read : seen = some t)
      (plan : Coordinator.proposeRecovery settings now members t = .ok proposal)
      (last : ∀ t', ∃ result, next t' = .done result) (awaited : Awaited calm stored midway t) :
      Forcing calm stored midway members seen (.update (fun _ => .ok proposal.started) next)
  | done (result : Result) : Forcing calm stored midway members seen (.done result)
  | fail (e : Failure) : Forcing calm stored midway members seen (.fail e)

/-- What one step of the coordinator can do to the store. -/
inductive Oversees (calm : Prop) (s : Scene) (e : Event) (s' : Scene) : Prop
  | kept (stored : s'.stored = s.stored)
  | booked (admits : s.stored.Admits (fun _ => True) s'.stored)
  /-- A force overwrite is stored. -/
  | forced {i : Party} {c : Session} {members : List MemberId} {settings : Settings} {now : Int}
      {t : Topology} {proposal : Coordinator.Proposal} (busy : s.busy i = some c)
      (forces : c.task.Forces members) (seen : c.seen = some t)
      (plan : Coordinator.proposeRecovery settings now members t = .ok proposal)
      (awaited : Awaited calm s.stored s.midway t) (stored : s'.stored = proposal.started)
      (event : e = .wrote i c.task s.stored s'.stored)

/-- The duty of a coordinator's session, and how far it has come. -/
structure Overseeing (calm : Prop) (s : Scene) (n : Nat) (c : Session) : Prop where
  alone : n = 0
  forcing : ∀ members, c.task.Forces members →
    Forcing calm s.stored s.midway members c.seen c.rest
  booking : (∀ members, ¬ c.task.Forces members) → c.rest.Revises (Topology.Admits fun _ => True)

/-- The scenes that one coordinator and the driver get into. -/
structure Steady (calm : Prop) (events : List Event) (s : Scene) : Prop where
  driver : ∀ c, s.busy .driver = some c → Course calm events s.stored c.task c.now c.written c.rest
  coordinator : ∀ n c, s.busy (.coordinator n) = some c → Overseeing calm s n c

/-! ## Steps of the driver -/

namespace Course

variable {written : Bool}

theorem read {next : Topology → Process Result}
    (h : Course calm events t task now written (.read next)) (e : Event) :
    written = false ∧ Course calm (events ++ [e]) t task now false (next t) := by
  cases h with
  | reading hrest =>
      refine ⟨rfl, ?_⟩
      rcases cases_of_advance hrest t with ⟨result, hdone⟩ | ⟨failure, hfail⟩ |
        ⟨change, op, tail, prepared, hpending, -, hprepare, hmarking⟩
      · rw [hdone]
        exact .done result
      · rw [hfail]
        exact .fail failure
      · rw [hmarking]
        exact .marking (Operation.ready_of_prepare hprepare) (Or.inl ⟨change, hpending, rfl, rfl⟩)

/-- The driver writes to mark an operation, and once more to confirm it. -/
theorem write {revise : Revision} {next : Topology → Process Result}
    (h : Course calm events t task now written (.update revise next)) (revised : revise t = .ok t') :
    (∃ settings id op prepared, Ready settings t op prepared ∧ Execution.isNext id op t ∧
      t' = prepared.inProgress.apply op.member t ∧
      next t' = Interleaving.calling now id op prepared) ∨
    written = true ∧ ∃ id op prepared, Afoot calm events t task op prepared ∧
      Execution.finishing now id op prepared t = .ok t' ∧ ∃ result, next t' = .done result := by
  cases h with
  | reading hrest => simp [Execution.advance, Process.map] at hrest
  | @marking settings t₁ id op prepared ready current =>
      left
      rcases Execution.starting_eq_ok_iff.1 revised with ⟨hnext, hmarked⟩
      rcases current with ⟨change, -, -, hmembers⟩ | hbeyond
      · -- Nothing has happened to the members since the operation was prepared.
        exact ⟨settings, id, op, prepared, ready.congr hmembers.symm, hnext, hmarked, rfl⟩
      · exact absurd hnext hbeyond.not_next
  | @confirming id op prepared afoot =>
      exact Or.inr ⟨rfl, id, op, prepared, afoot, revised, _, rfl⟩

theorem call {call : Call} {next : Process Result}
    (h : Course calm events t task now written (.call call next)) (e : Event) :
    written = true ∧ ∃ id op prepared, next = Interleaving.confirming now id op prepared ∧
      Afoot calm (events ++ [e]) t task op prepared := by
  cases h with
  | reading hrest => simp [Execution.advance, Process.map] at hrest
  | @calling id op prepared afoot => exact ⟨rfl, id, op, prepared, rfl, afoot.congr rfl e⟩

end Course

theorem Steady.driver_step (h : Steady calm events s) (step : Step solitary s e s')
    (party : e.party = .driver) :
    (∀ c, s'.busy .driver = some c →
      Course calm (events ++ [e]) s'.stored c.task c.now c.written c.rest) ∧
      Drives calm events s e s' := by
  -- A driver that has ended its task is nowhere in the middle of it.
  have hended : ∀ i, i = .driver →
      (∀ c, (s.set i none).busy .driver = some c →
        Course calm (events ++ [e]) (s.set i none).stored c.task c.now c.written c.rest) ∧
      Drives calm events s e (s.set i none) := by
    rintro i rfl
    refine ⟨?_, .kept rfl ?_⟩
    · intro c hc
      simp at hc
    · intro hmidway
      simp [Scene.midway] at hmidway
  cases step with
  | @began i task now free duty =>
      have hi : i = .driver := party
      subst hi
      refine ⟨?_, .kept rfl ?_⟩
      · intro c hc
        have hbegin : Session.begin task now = c := by simpa using hc
        subst hbegin
        cases task with
        | advance settings => exact .reading rfl
        | _ => exact duty.elim
      · intro hmidway
        simp [Scene.midway, Session.begin] at hmidway
  | @read i c next busy rest =>
      have hi : i = .driver := party
      subst hi
      have hcourse := h.driver c busy
      rw [rest] at hcourse
      rcases hcourse.read (.read .driver) with ⟨hwritten, hnext⟩
      refine ⟨?_, .kept rfl ?_⟩
      · intro c' hc'
        have hread : { c with seen := some s.stored, rest := next s.stored } = c' := by
          simpa using hc'
        subst hread
        simpa [hwritten] using hnext
      · intro hmidway
        simp [Scene.midway, hwritten] at hmidway
  | @wrote i c revise next t busy rest revised =>
      have hi : i = .driver := party
      subst hi
      have hcourse := h.driver c busy
      rw [rest] at hcourse
      have hnew : ∀ c', (s.store .driver t { c with written := true, rest := next t }).busy .driver =
          some c' → { c with written := true, rest := next t } = c' := by
        intro c' hc'
        simpa using hc'
      rcases hcourse.write revised with ⟨settings, id, op, prepared, hready, hnext, rfl, hrest⟩ |
        ⟨hwritten, id, op, prepared, hafoot, hfinished, result, hrest⟩
      · refine ⟨?_, .marked hready hnext rfl⟩
        intro c' hc'
        rw [← hnew c' hc']
        simp only [hrest]
        exact .calling ⟨settings, s.stored, events, [], hready, rfl, fun _ => Or.inl rfl⟩
      · refine ⟨?_, .confirmed hafoot ?_ ?_ hfinished rfl⟩
        · intro c' hc'
          rw [← hnew c' hc']
          simp only [hrest]
          exact .done result
        · simp [Scene.midway, busy, hwritten, rest]
        · simp [Scene.midway, hrest]
  | @called i c call next busy rest =>
      have hi : i = .driver := party
      subst hi
      have hcourse := h.driver c busy
      rw [rest] at hcourse
      rcases hcourse.call (.called .driver call) with ⟨hwritten, id, op, prepared, rfl, hafoot⟩
      refine ⟨?_, .kept rfl ?_⟩
      · intro c' hc'
        have hcalled : { c with rest := confirming c.now id op prepared } = c' := by
          simpa using hc'
        subst hcalled
        simp only [hwritten]
        exact .confirming hafoot
      · intro _
        simp [Scene.midway, busy, hwritten, rest]
  | rejected busy rest revised => exact hended _ party
  | refused busy rest => exact hended _ party
  | stopped busy => exact hended _ party
  | answered busy rest => exact hended _ party

/-! ## Steps of the coordinator -/

section Coordinator

variable {n : Nat} {c : Session} {members : List MemberId} {settings : Settings}
  {stored : Topology} {midway : Bool}

theorem forcing_of_read {next : Topology → Process Result}
    (h : .read next = ((Coordinator.recover settings now members).map
      fun r => Response.change r.summary).map Result.replied) (rested : calm → midway = false) :
    Forcing calm stored midway members (some stored) (next stored) := by
  simp only [Coordinator.recover, Process.map, Process.read.injEq] at h
  rw [h]
  beta_reduce
  cases hpropose : Coordinator.proposeRecovery settings now members stored with
  | error e => exact .fail e
  | ok proposal =>
      exact .planned rfl hpropose (fun t' => ⟨_, rfl⟩)
        ⟨(Coordinator.proposeRecovery_eq_ok hpropose).1, rfl, Or.inl ⟨rfl, rested⟩⟩

theorem overseeing_begin (duty : solitary (.coordinator n) task) :
    Overseeing calm s n (.begin task now) := by
  cases task with
  | change settings dryRun planner =>
      refine ⟨duty, ?_, ?_⟩
      · rintro members ⟨own, htask⟩
        cases htask
      · intro _
        exact admits_change settings dryRun now fun _ _ _ _ _ => trivial
  | cancel id =>
      refine ⟨duty, ?_, ?_⟩
      · rintro members ⟨own, htask⟩
        cases htask
      · intro _
        exact admits_cancel id now
  | manage settings request =>
      refine ⟨duty, ?_, ?_⟩
      · rintro members ⟨own, htask⟩
        cases htask
        have hhandled := (Request.forceOverwrite members).handled settings now
        change Forcing _ _ _ _ _ (((Request.forceOverwrite members).handle settings now).map _)
        generalize (Request.forceOverwrite members).handle settings now = process at hhandled ⊢
        cases hhandled with
        | refused silent => exact .fail _
        | change intent asked reaches => cases asked
        | recover members reaches => exact .asked rfl
      · intro hgentle
        have hrequest : ∀ members, request ≠ .forceOverwrite members := by
          rintro members rfl
          exact hgentle members ⟨settings, rfl⟩
        exact (Request.revises_handle settings now hrequest).map _
  | advance settings => exact duty.elim

namespace Overseeing

/-- What is read is the store, which the step leaves as it is. -/
theorem read {next : Topology → Process Result} (h : Overseeing calm s n c)
    (rest : c.rest = .read next) (stored : s'.stored = s.stored)
    (rested : ∀ members, c.task.Forces members → calm → s'.midway = false) :
    Overseeing calm s' n { c with seen := some s.stored, rest := next s.stored } := by
  refine ⟨h.alone, ?_, ?_⟩
  · intro members hforces
    have hasked := h.forcing members hforces
    rw [rest] at hasked
    cases hasked with
    | asked hrest =>
        rw [stored]
        exact forcing_of_read hrest (rested members hforces)
  · intro hgentle
    have hrevises := h.booking hgentle
    rw [rest] at hrevises
    exact hrevises s.stored

/-- The coordinator stores a force overwrite that is planned, or books a change or a cancellation. -/
theorem write {revise : Revision} {next : Topology → Process Result} (h : Overseeing calm s n c)
    (rest : c.rest = .update revise next) (revised : revise s.stored = .ok t) :
    Overseeing calm s' n { c with written := true, rest := next t } ∧
      ((∃ members settings now t₀ proposal, c.task.Forces members ∧ c.seen = some t₀ ∧
        Coordinator.proposeRecovery settings now members t₀ = .ok proposal ∧
        Awaited calm s.stored s.midway t₀ ∧ t = proposal.started) ∨
      s.stored.Admits (fun _ => True) t) := by
  by_cases hforces : ∃ members, c.task.Forces members
  · rcases hforces with ⟨members, hforces⟩
    have hplanned := h.forcing members hforces
    rw [rest] at hplanned
    cases hplanned with
    | asked hrest => simp [Coordinator.recover, Process.map] at hrest
    | @planned settings now t₀ proposal next read plan last awaited =>
        have ht : proposal.started = t := Except.ok.inj revised
        refine ⟨⟨h.alone, ?_, fun hgentle => absurd hforces (hgentle members)⟩,
          Or.inl ⟨members, settings, now, t₀, proposal, hforces, read, plan, awaited, ht.symm⟩⟩
        intro members' _
        rcases last t with ⟨result, hresult⟩
        simp only [hresult]
        exact .done result
  · have hgentle : ∀ members, ¬ c.task.Forces members := fun members hm => hforces ⟨members, hm⟩
    have hrevises := h.booking hgentle
    rw [rest] at hrevises
    exact ⟨⟨h.alone, fun members hm => absurd hm (hgentle members), fun _ => hrevises.2 t⟩,
      Or.inr (hrevises.1 _ _ revised)⟩

theorem call {call : Call} {next : Process Result} (h : Overseeing calm s n c)
    (rest : c.rest = .call call next) : Overseeing calm s' n { c with rest := next } := by
  refine ⟨h.alone, ?_, ?_⟩
  · -- A force overwrite calls no member.
    intro members hforces
    have hasked := h.forcing members hforces
    rw [rest] at hasked
    cases hasked with
    | asked hrest => simp [Coordinator.recover, Process.map] at hrest
  · intro hgentle
    have hrevises := h.booking hgentle
    rw [rest] at hrevises
    exact hrevises

end Overseeing

theorem Steady.coordinator_step (h : Steady calm events s) (patient : calm → s.Patient e)
    (step : Step solitary s e s') (party : e.party = .coordinator n) :
    (∀ c, s'.busy (.coordinator n) = some c → Overseeing calm s' n c) ∧ Oversees calm s e s' := by
  have hmidway : s'.midway = s.midway := midway_eq (step.busy_of_ne (by simp [party]))
  have hended : ∀ i, i = .coordinator n →
      (∀ c, (s.set i none).busy (.coordinator n) = some c → Overseeing calm (s.set i none) n c) ∧
        Oversees calm s e (s.set i none) := by
    rintro i rfl
    refine ⟨?_, .kept rfl⟩
    intro c hc
    simp at hc
  cases step with
  | @began i task now free duty =>
      have hi : i = .coordinator n := party
      subst hi
      refine ⟨?_, .kept rfl⟩
      intro c hc
      have hbegin : Session.begin task now = c := by simpa using hc
      exact hbegin ▸ overseeing_begin duty
  | @read i c next busy rest =>
      have hi : i = .coordinator n := party
      subst hi
      refine ⟨?_, .kept rfl⟩
      intro c' hc'
      have hread : { c with seen := some s.stored, rest := next s.stored } = c' := by
        simpa using hc'
      rw [← hread]
      refine (h.coordinator n c busy).read rest rfl ?_
      intro members hforces hcalm
      rw [hmidway]
      exact patient hcalm _ c members rfl busy hforces
  | @wrote i c revise next t busy rest revised =>
      have hi : i = .coordinator n := party
      subst hi
      rcases (h.coordinator n c busy).write rest revised with ⟨hgoes, hstored⟩
      refine ⟨?_, ?_⟩
      · intro c' hc'
        have hwrote : { c with written := true, rest := next t } = c' := by simpa using hc'
        exact hwrote ▸ hgoes
      · rcases hstored with
          ⟨members, settings, now, t₀, proposal, hforces, hseen, hplan, hawaited, ht⟩ | hadmits
        · exact .forced busy hforces hseen hplan hawaited ht rfl
        · exact .booked hadmits
  | @called i c call next busy rest =>
      have hi : i = .coordinator n := party
      subst hi
      refine ⟨?_, .kept rfl⟩
      intro c' hc'
      have hcalled : { c with rest := next } = c' := by simpa using hc'
      exact hcalled ▸ (h.coordinator n c busy).call rest
  | rejected busy rest revised => exact hended _ party
  | refused busy rest => exact hended _ party
  | stopped busy => exact hended _ party
  | answered busy rest => exact hended _ party

end Coordinator

/-! ## What one party's steps leave of the other's stage -/

/-- What a force overwrite stores has the members that it was planned to leave. -/
theorem exists_recovery {settings : Settings} {members : List MemberId}
    {proposal : Coordinator.Proposal}
    (plan : Coordinator.proposeRecovery settings now members t = .ok proposal) :
    ∃ recovery, Recovery.plan members t = .ok recovery ∧
      proposal.started.members = recovery.topology.members := by
  rcases Coordinator.proposeRecovery_eq_ok plan with ⟨-, recovery, hplan, -, ⟨-, hsame⟩ | hbegins⟩
  · exact ⟨recovery, hplan, by rw [hsame]⟩
  · exact ⟨recovery, hplan, members_eq_of_admits (Or.inl hbegins)⟩

theorem Afoot.overseen (h : Afoot calm events s.stored task op prepared) (midway : s.midway = true)
    (oversees : Oversees calm s e s') :
    Afoot calm (events ++ [e]) s'.stored task op prepared := by
  cases oversees with
  | kept stored => exact h.congr (by rw [stored]) e
  | booked admits => exact h.congr (members_eq_of_admits admits) e
  | @forced i c members settings now t proposal busy forces seen plan awaited stored event =>
      rcases awaited.members with ⟨hmembers, hrested⟩ | ⟨-, hrested, -⟩
      · have hrestless : ¬ calm := by
          intro hcalm
          simp [hrested hcalm] at midway
        rcases exists_recovery plan with ⟨recovery, hplan, hstarted⟩
        rw [event]
        refine h.forced hrestless forces ?_
        intro id
        have hreduced : s'.stored.member? id = recovery.topology.member? id := by
          simp only [Topology.member?, stored, hstarted]
        have hsame : s.stored.member? id = t.member? id := by
          simp only [Topology.member?, hmembers]
        rw [hreduced, hsame, Recovery.member?_plan hplan]
      · -- The driver is in the middle of an operation.
        simp [hrested] at midway

theorem Beyond.overseen (h : Beyond id s.stored) (oversees : Oversees calm s e s') :
    Beyond id s'.stored := by
  cases oversees with
  | kept stored => rwa [stored]
  | booked admits =>
      rcases admits with hbegins | hcancels
      · exact h.begins hbegins
      · exact h.cancels hcancels
  | forced busy forces seen plan awaited stored event =>
      rcases Coordinator.proposeRecovery_eq_ok plan with ⟨hidle, recovery, hplan, -, hstarted⟩
      rcases Recovery.pending_plan hplan with ⟨hpending, hlast⟩
      -- The ledger is the one that the force overwrite was planned on.
      have hreduced : Beyond id recovery.topology := by
        refine ⟨?_, ?_⟩
        · rw [hlast, ← awaited.lastChange]
          exact h.last
        · intro change hchange
          simp [hpending, hidle] at hchange
      rw [stored]
      rcases hstarted with ⟨-, hsame⟩ | hbegins
      · rwa [hsame]
      · exact hreduced.begins hbegins

theorem Steady.driver_overseen (h : Steady calm events s) (oversees : Oversees calm s e s') :
    ∀ c, s.busy .driver = some c →
      Course calm (events ++ [e]) s'.stored c.task c.now c.written c.rest := by
  intro c hc
  have hcourse := h.driver c hc
  generalize hwritten : c.written = written at hcourse ⊢
  generalize hrest : c.rest = rest at hcourse ⊢
  -- What the driver has read and has marked is behind it; only the store may be another one.
  cases hcourse with
  | reading hreading => exact .reading hreading
  | done result => exact .done result
  | fail failure => exact .fail failure
  | @marking settings t₁ id op prepared ready current =>
      refine .marking ready ?_
      rcases current with ⟨change, hpending, hid, hmembers⟩ | hbeyond
      · cases oversees with
        | kept stored =>
            rw [stored]
            exact Or.inl ⟨change, hpending, hid, hmembers⟩
        | booked admits =>
            -- While a change is pending, there is nothing to book but its cancellation.
            rcases admits with ⟨hnone, -⟩ | hcancels
            · simp [hpending] at hnone
            · right
              refine beyond_of_cancels hcancels fun change' hchange' => ?_
              have hsame : change = change' := by simpa [hpending] using hchange'
              rw [← hsame, hid]
        | forced busy forces seen plan awaited stored event => simp [awaited.pending] at hpending
      · exact Or.inr (hbeyond.overseen oversees)
  | @calling id op prepared afoot =>
      have hmidway : s.midway = true := by simp [Scene.midway, hc, hwritten, hrest, calling]
      exact .calling (afoot.overseen hmidway oversees)
  | @confirming id op prepared afoot =>
      have hmidway : s.midway = true := by simp [Scene.midway, hc, hwritten, hrest, confirming]
      exact .confirming (afoot.overseen hmidway oversees)

theorem Awaited.driven (h : Awaited calm s.stored s.midway t) (drives : Drives calm events s e s') :
    Awaited calm s'.stored s'.midway t := by
  -- A driver that is not in the middle of an operation does not get there by itself.
  cases drives with
  | kept stored midway =>
      have hrested : s.midway = false → s'.midway = false := by
        intro hfalse
        by_contra hmidway
        simp [midway (by simpa using hmidway)] at hfalse
      rw [stored]
      refine ⟨h.pending, h.lastChange, ?_⟩
      rcases h.members with ⟨hmembers, hcalm⟩ | ⟨hcalm, hfalse, hconfirmed⟩
      · exact Or.inl ⟨hmembers, fun hc => hrested (hcalm hc)⟩
      · exact Or.inr ⟨hcalm, hrested hfalse, hconfirmed⟩
  | marked ready next stored =>
      rcases Execution.isNext_iff.1 next with ⟨c, rest, hpending, -⟩
      simp [h.pending] at hpending
  | @confirmed task now id op prepared afoot midway rested finished event =>
      rcases h.members with ⟨hmembers, hcalm⟩ | ⟨-, hfalse, -⟩
      · have hrestless : ¬ calm := by
          intro hc
          simp [hcalm hc] at midway
        -- The operation's change has been cancelled, so its confirmation advances no change.
        rcases Execution.finishing_eq_ok_iff.1 finished with ⟨c, rest, hpending, -⟩ | ⟨-, hstored⟩
        · simp [h.pending] at hpending
        · rcases afoot.ready with ⟨settings, t₀, hready⟩
          rw [hstored]
          refine ⟨by simpa using h.pending, by simpa using h.lastChange, Or.inr ⟨hrestless, rested,
            settings, t₀, op, prepared, hready, ?_⟩⟩
          exact prepared.confirmed.members_apply_congr op.member hmembers
      · simp [hfalse] at midway

theorem Overseeing.driven {n : Nat} {c : Session} (h : Overseeing calm s n c)
    (drives : Drives calm events s e s') : Overseeing calm s' n c := by
  refine ⟨h.alone, ?_, h.booking⟩
  intro members hforces
  have hforcing := h.forcing members hforces
  generalize c.rest = rest at hforcing ⊢
  cases hforcing with
  | asked hrest => exact .asked hrest
  | planned read plan last awaited => exact .planned read plan last (awaited.driven drives)
  | done result => exact .done result
  | fail failure => exact .fail failure

/-! ## Every run is steady -/

theorem Steady.alone {n : Nat} (h : Steady calm events s) (step : Step solitary s e s')
    (party : e.party = .coordinator n) : n = 0 := by
  have hbusy : ∀ i c, i = .coordinator n → s.busy i = some c → n = 0 := by
    rintro i c rfl hc
    exact (h.coordinator n c hc).alone
  cases step with
  | @began i task now free duty =>
      have hi : i = .coordinator n := party
      subst hi
      have hbegin : Overseeing calm s n (.begin task now) := overseeing_begin duty
      exact hbegin.alone
  | read busy rest => exact hbusy _ _ party busy
  | wrote busy rest revised => exact hbusy _ _ party busy
  | rejected busy rest revised => exact hbusy _ _ party busy
  | refused busy rest => exact hbusy _ _ party busy
  | called busy rest => exact hbusy _ _ party busy
  | stopped busy => exact hbusy _ _ party busy
  | answered busy rest => exact hbusy _ _ party busy

theorem steady_start (t : Topology) : Steady calm [] (.start t) := by
  refine ⟨?_, ?_⟩
  · intro c hc
    simp at hc
  · intro n c hc
    simp at hc

theorem Steady.step (h : Steady calm events s) (patient : calm → s.Patient e)
    (step : Step solitary s e s') :
    Steady calm (events ++ [e]) s' ∧ (Drives calm events s e s' ∨ Oversees calm s e s') := by
  cases hparty : e.party with
  | driver =>
      rcases h.driver_step step hparty with ⟨hdriver, hdrives⟩
      refine ⟨⟨hdriver, ?_⟩, Or.inl hdrives⟩
      -- The coordinator is where it was, on a store that the driver may have changed.
      intro n c hc
      rw [step.busy_of_ne (by simp [hparty])] at hc
      exact (h.coordinator n c hc).driven hdrives
  | coordinator n =>
      rcases h.coordinator_step patient step hparty with ⟨hcoordinator, hoversees⟩
      refine ⟨⟨?_, ?_⟩, Or.inr hoversees⟩
      · intro c hc
        rw [step.busy_of_ne (by simp [hparty])] at hc
        exact h.driver_overseen hoversees c hc
      · intro n' c hc
        by_cases hn : n' = n
        · subst hn
          exact hcoordinator c hc
        · -- There is one coordinator only, so no other one is busy.
          rw [step.busy_of_ne (by simp [hparty, hn])] at hc
          have hnone : n' = n := by rw [(h.coordinator n' c hc).alone, h.alone step hparty]
          exact absurd hnone hn

theorem steady_run (run : Run (fun s e s' => (calm → s.Patient e) ∧ Step solitary s e s') (.start t)
    events s) : Steady calm events s := by
  induction run with
  | refl => exact steady_start t
  | tail run last ih => exact (ih.step last.1 last.2).1

end Interleaving

end ReplicaCluster
