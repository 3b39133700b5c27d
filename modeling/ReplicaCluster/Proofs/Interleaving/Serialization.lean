import ReplicaCluster.Proofs.Interleaving.Guarantees

/-!
# Changes are serialized

Any number of coordinators and one driver work on one store.  The record of a run lists the changes
that it commits and the ends that they come to.  Whatever the order of steps, the record runs
`committed 1, ended 1, committed 2, ended 2, …`: no change is lost, ended twice or skipped, and at
most the last one is still pending (`changes_serialized`).

A request is committed only on the topology that it was planned on.  Equality of topologies is a
safe test of that, since no write that changes the topology is ever undone.
-/

namespace ReplicaCluster

namespace Interleaving

/-! ## The record of a run -/

inductive Entry
  | committed (id : Nat)
  | ended (change : EndedChange)

/-- The end of a change that a write has brought about: its change is not pending any more. -/
def endedBy (before after : Topology) : List Entry :=
  match before.pending with
  | none => []
  | some c =>
      if after.pending.any fun c' => c'.id = c.id then []
      else after.lastChange.toList.map .ended

/-- What an event adds to the record.  It is the requests for changes that commit them. -/
def Event.entries : Event → List Entry
  | .wrote _ (.change ..) before after =>
      endedBy before after ++ after.pending.toList.map fun c => .committed c.id
  | .wrote _ _ before after => endedBy before after
  | _ => []

def record (events : List Event) : List Entry := events.flatMap Event.entries

theorem record_append (events : List Event) (e : Event) :
    record (events ++ [e]) = record events ++ e.entries := by
  simp [record]

/-! ## What the tasks guarantee -/

/-- Coordinators handle requests for changes and cancel changes, and the driver carries them
out. -/
def sharing : Party → Task → Prop
  | .driver, .advance _ => True
  | .coordinator _, .change .. => True
  | .coordinator _, .cancel _ => True
  | _, _ => False

/-- What each task does to the ledger with one write. -/
def Task.Books : Task → Topology → Topology → Prop
  | .change .., t, t' => t.Begins (fun _ => True) t' ∧ t.Ages t'
  | .cancel _, t, t' => t.Cancels t' ∧ t.Ages t'
  | .manage .., _, _ => False
  | .advance _, t, t' => t.Proceeds t' ∧ t.Ages t'

theorem revises_books {i : Party} {task : Task} (now : Int) (duty : sharing i task) :
    (task.process now).Revises task.Books := by
  cases task with
  | change settings dryRun planner =>
      have hrequest : (Coordinator.request settings now dryRun planner).Revises
          (Topology.Begins fun _ => True) :=
        Coordinator.revises_request settings now dryRun fun _ _ _ _ _ => trivial
      exact (hrequest.map _).mono fun t t' h => ⟨h, h.ages⟩
  | cancel id =>
      exact ((Coordinator.revises_cancel now id).map _).mono fun t t' h => ⟨h, h.ages⟩
  | advance settings => exact (Execution.revises_advance settings now).map _
  | manage settings request => cases i <;> exact duty.elim

theorem Task.Books.ages {task : Task} {t t' : Topology} (h : task.Books t t') : t.Ages t' := by
  cases task with
  | manage settings request => exact h.elim
  | _ => exact h.2

/-! ## The record agrees with the ledger -/

/-- The record that a ledger stands for: ended changes, numbered from 1 and each with its end, and
then the pending change. -/
structure Accounts (ended : List EndedChange) (t : Topology) (entries : List Entry) : Prop where
  numbered : ended.map (·.id) = List.range' 1 ended.length
  last : ended.getLast? = t.lastChange
  next : ∀ c, t.pending = some c → c.id = ended.length + 1
  recorded : entries = (ended.flatMap fun c => [.committed c.id, .ended c]) ++
    t.pending.toList.map fun c => .committed c.id

namespace Accounts

variable {ended : List EndedChange} {t t' : Topology} {entries : List Entry}

theorem nextChangeId (h : Accounts ended t entries) : t.nextChangeId = ended.length + 1 := by
  unfold Topology.nextChangeId
  -- The last number given out is the last of `1, …, n`, if there is one.
  rw [← h.last]
  have hlast : (ended.getLast?.map (·.id)) = (List.range' 1 ended.length).getLast? := by
    rw [← h.numbered, List.getLast?_map]
  rw [hlast]
  cases hlength : ended.length with
  | zero => rfl
  | succ n => simp [List.range'_1_concat, Nat.add_comm]

theorem begins {good : Operation → Prop} (h : Accounts ended t entries)
    (begins : t.Begins good t') :
    Accounts ended t' (entries ++ (endedBy t t' ++
      t'.pending.toList.map fun c => .committed c.id)) := by
  rcases begins with ⟨hpending, operations, -, -, rfl⟩
  refine ⟨h.numbered, h.last, ?_, ?_⟩
  · intro c hc
    have hstart : PendingChange.start t.nextChangeId operations = c := by
      simpa [Topology.begun] using hc
    rw [← hstart]
    exact h.nextChangeId
  · rw [h.recorded]
    simp [hpending, endedBy]

/-- A change that is not pending any more, and is on record as the last one, has ended. -/
theorem ends {c : PendingChange} {r : EndedChange} (h : Accounts ended t entries)
    (hpending : t.pending = some c) (hnone : t'.pending = none)
    (hlast : t'.lastChange = some r) (hid : r.id = c.id) :
    Accounts (ended ++ [r]) t' (entries ++ endedBy t t') := by
  -- The change that ends is the one with the next number, and its end completes the pair.
  have hnext : r.id = ended.length + 1 := by rw [hid, h.next c hpending]
  refine ⟨?_, by simp [hlast], ?_, ?_⟩
  · rw [List.map_append, h.numbered, List.length_append, List.length_singleton,
      List.range'_1_concat]
    simp [hnext, Nat.add_comm]
  · intro c' hc'
    simp [hnone] at hc'
  · rw [h.recorded]
    simp [endedBy, hpending, hnone, hlast, hid]

theorem keeps (h : Accounts ended t entries) (hlast : t'.lastChange = t.lastChange)
    (hid : t'.pending.map (·.id) = t.pending.map (·.id)) :
    Accounts ended t' (entries ++ endedBy t t') := by
  refine ⟨h.numbered, by rw [hlast, h.last], ?_, ?_⟩
  · intro c' hc'
    cases hpending : t.pending with
    | none => simp [hc', hpending] at hid
    | some c =>
        have hsame : c'.id = c.id := by simpa [hc', hpending] using hid
        rw [hsame, h.next c hpending]
  · rw [h.recorded]
    cases hpending : t.pending with
    | none =>
        have hnone : t'.pending = none := by simpa [hpending] using hid
        simp [endedBy, hpending, hnone]
    | some c =>
        rcases Option.map_eq_some_iff.1 (hid.trans (by rw [hpending]; rfl)) with ⟨c', hc', hsame⟩
        simp [endedBy, hpending, hc', hsame]

theorem cancels (h : Accounts ended t entries) (cancels : t.Cancels t') :
    ∃ ended', Accounts ended' t' (entries ++ endedBy t t') := by
  rcases cancels with ⟨c, now, hpending, rfl⟩
  exact ⟨_, h.ends (r := ⟨c.id, .cancelled, c.done, now⟩) hpending
    (by simp [Topology.cancelChange, hpending]) (by simp [Topology.cancelChange, hpending]) rfl⟩

theorem proceeds (h : Accounts ended t entries) (proceeds : t.Proceeds t') :
    ∃ ended', Accounts ended' t' (entries ++ endedBy t t') := by
  rcases proceeds with ⟨hsame, hlast⟩ | ⟨c, hpending, ⟨hadvance, hlast⟩ | ⟨now, hnone, hlast⟩⟩
  · exact ⟨ended, h.keeps hlast (by rw [hsame])⟩
  · exact ⟨ended, h.keeps hlast (by simp [hadvance, hpending])⟩
  · exact ⟨_, h.ends hpending hnone hlast rfl⟩

theorem wrote {i : Party} {task : Task} (h : Accounts ended t entries) (books : task.Books t t') :
    ∃ ended', Accounts ended' t' (entries ++ Event.entries (.wrote i task t t')) := by
  -- Requests begin changes, cancels end them, and advances end them with their last operation.
  cases task with
  | change settings dryRun planner => exact ⟨ended, h.begins books.1⟩
  | cancel id => exact h.cancels books.1
  | advance settings => exact h.proceeds books.1
  | manage settings request => exact books.elim

end Accounts

/-! ## Requests compare what they have read -/

variable {s s' s₁ : Scene} {e : Event} {events : List Event}

/-- How far a request for a change has come: it has not read yet, it is about to commit what it
has planned on the topology that it has read, or it is over. -/
inductive Drafting (settings : Settings) (now : Int) (dryRun : Bool) (planner : Planner)
    (seen : Option Topology) : Process Result → Prop
  | asked {rest : Process Result}
      (h : rest = (Coordinator.request settings now dryRun planner).map .changed) :
      Drafting settings now dryRun planner seen rest
  | planned {t : Topology} {p : Coordinator.Proposal} {next : Topology → Process Result}
      (read : seen = some t) (real : dryRun = false)
      (plan : Coordinator.propose settings now planner t = .ok (some p))
      (last : ∀ t', ∃ result, next t' = .done result) :
      Drafting settings now dryRun planner seen (.update (Coordinator.commit t p.started) next)
  | answered (result : Result) : Drafting settings now dryRun planner seen (.done result)
  | refused (e : Failure) : Drafting settings now dryRun planner seen (.fail e)

theorem drafting_of_read {settings : Settings} {now : Int} {dryRun : Bool} {planner : Planner}
    {next : Topology → Process Result}
    (h : .read next = (Coordinator.request settings now dryRun planner).map .changed)
    (t : Topology) : Drafting settings now dryRun planner (some t) (next t) := by
  simp only [Coordinator.request, Process.map, Process.read.injEq] at h
  rw [h]
  beta_reduce
  cases hpropose : Coordinator.propose settings now planner t with
  | error e => exact .refused e
  | ok proposal =>
      cases proposal with
      | none => exact .answered _
      | some p =>
          cases dryRun with
          | true => exact .answered _
          | false => exact .planned rfl rfl hpropose fun t' => ⟨_, rfl⟩

def Session.Drafts (c : Session) : Prop :=
  ∀ settings dryRun planner, c.task = .change settings dryRun planner →
    Drafting settings c.now dryRun planner c.seen c.rest

theorem drafts_step {duties : Party → Task → Prop} (h : ∀ i c, s.busy i = some c → c.Drafts)
    (step : Step duties s e s') : ∀ i c, s'.busy i = some c → c.Drafts := by
  refine step.forall_busy (p := fun _ c => c.Drafts) h ?_ ?_ ?_ ?_
  · intro i task now duty settings dryRun planner htask
    have hrequest : task = .change settings dryRun planner := htask
    subst hrequest
    exact .asked rfl
  · intro i c next t hc hrest settings dryRun planner htask
    have hdraft := hc settings dryRun planner htask
    rw [hrest] at hdraft
    cases hdraft with
    | asked hasked => exact drafting_of_read hasked t
  · intro i c revise next t hc hrest settings dryRun planner htask
    have hdraft := hc settings dryRun planner htask
    rw [hrest] at hdraft
    cases hdraft with
    | asked hasked => simp [Coordinator.request, Process.map] at hasked
    | planned read real plan last =>
        rcases last t with ⟨result, hresult⟩
        simp only [hresult]
        exact .answered result
  · intro i c call next hc hrest settings dryRun planner htask
    -- A request calls no member.
    have hdraft := hc settings dryRun planner htask
    rw [hrest] at hdraft
    cases hdraft with
    | asked hasked => simp [Coordinator.request, Process.map] at hasked

/-- A request that is about to write commits its plan on the topology that it has read, and on no
other one. -/
theorem Drafting.commits {settings : Settings} {now : Int} {dryRun : Bool} {planner : Planner}
    {seen : Option Topology} {revise : Revision} {next : Topology → Process Result}
    (h : Drafting settings now dryRun planner seen (.update revise next)) (stored : Topology) :
    ∃ t p, seen = some t ∧ dryRun = false ∧
      Coordinator.propose settings now planner t = .ok (some p) ∧
      (stored = t → revise stored = .ok p.started) ∧
      (stored ≠ t → ∃ e, revise stored = .error e ∧ e.kind = .concurrentModification) := by
  cases h with
  -- A request that has not read yet does not write.
  | asked hrest => simp [Coordinator.request, Process.map] at hrest
  | @planned t p next read real plan last =>
      refine ⟨t, p, read, real, plan, ?_, ?_⟩
      · intro hstored
        simp [Coordinator.commit, hstored]
      · intro hstored
        exact ⟨_, by simp only [Coordinator.commit, hstored, if_false]; rfl, rfl⟩

/-! ## Versions never come back -/

theorem Keeping.ages (h : Keeping sharing (fun _ => Task.Books) s) (step : Step sharing s e s') :
    s.stored.Ages s'.stored := by
  rcases step.stored_eq_or_wrote with hstored | ⟨i, task, rfl⟩
  · exact Or.inl hstored
  · exact (h.wrote step).2.2.2.ages

theorem keeping_run (run : Run (Step sharing) s events s')
    (h : Keeping sharing (fun _ => Task.Books) s) :
    Keeping sharing (fun _ => Task.Books) s' :=
  h.run (fun _ _ now duty => revises_books now duty) run

/-- A run that comes back to the version it has started from has written nothing new. -/
theorem writes_of_version_eq (run : Run (Step sharing) s events s')
    (h : Keeping sharing (fun _ => Task.Books) s) :
    s.stored.version ≤ s'.stored.version ∧
      (s'.stored.version = s.stored.version → s'.stored = s.stored ∧
        ∀ i task t t', .wrote i task t t' ∈ events → t = s.stored ∧ t' = s.stored) := by
  -- By induction on the run; versions never fall, so an equal one at the end was never left.
  induction run with
  | refl => exact ⟨le_rfl, fun _ => ⟨rfl, fun i task t t' hmem => by simp at hmem⟩⟩
  | @tail events s₁ s₂ e run last ih =>
      have hkeeping := keeping_run run h
      rcases ih with ⟨hle, hback⟩
      rcases hkeeping.ages last with hsame | hlt
      · rw [hsame]
        refine ⟨hle, ?_⟩
        intro hversion
        rcases hback hversion with ⟨hstored, hwrites⟩
        refine ⟨hstored, ?_⟩
        intro i task t t' hmem
        rcases List.mem_append.1 hmem with hbefore | hlast
        · exact hwrites i task t t' hbefore
        · have he : Event.wrote i task t t' = e := by simpa using hlast
          subst he
          rcases hkeeping.wrote last with ⟨ht, ht', -⟩
          exact ⟨ht.trans hstored, ht'.trans (hsame.trans hstored)⟩
      · refine ⟨hle.trans hlt.le, ?_⟩
        intro hversion
        omega

/-! ## Serialization -/

theorem accounts_run {t₀ : Topology} (idle : t₀.pending = none) (fresh : t₀.lastChange = none)
    (run : Run (Step sharing) (.start t₀) events s) :
    ∃ ended, Accounts ended s.stored (record events) := by
  induction run with
  | refl => exact ⟨[], rfl, by simp [fresh], by simp [idle], by simp [record, idle]⟩
  | @tail events s₁ s₂ e run last ih =>
      rcases ih with ⟨ended, haccounts⟩
      rw [record_append]
      have hkeeping := keeping_run run (keeping_start t₀)
      cases e with
      | wrote i task t t' =>
          rcases hkeeping.wrote last with ⟨rfl, rfl, -, hbooks⟩
          exact haccounts.wrote hbooks
      | _ =>
          -- Whatever is no write leaves both the ledger and the record as they are.
          have hstored : s₂.stored = s₁.stored := by
            rcases last.stored_eq_or_wrote with hstored | ⟨i, task, he⟩
            · exact hstored
            · cases he
          rw [hstored]
          exact ⟨ended, by simpa [Event.entries] using haccounts⟩

/-- Coordinators and a driver share a store on which no change is pending or on record.  Whatever
the order of their steps,

* the record of the run lists the changes `1, 2, 3, …`, each of them committed and then ended
  before the next one is committed, and at the end the pending one, if any, committed only;
* a request for a change that is about to write commits its plan if the store holds the topology
  that the plan was made on, and is refused as a concurrent modification otherwise;
* if the store holds the topology that it held at some earlier moment, it has held none other in
  between. -/
theorem changes_serialized {t₀ : Topology} (idle : t₀.pending = none) (fresh : t₀.lastChange = none)
    (run : Run (Step sharing) (.start t₀) events s) :
    (∃ ended : List EndedChange, ended.map (·.id) = List.range' 1 ended.length ∧
      record events = (ended.flatMap fun c => [.committed c.id, .ended c]) ++
        (s.stored.pending.toList.map fun c => .committed c.id) ∧
      ∀ c, s.stored.pending = some c → c.id = ended.length + 1) ∧
    (∀ i c settings dryRun planner revise next, s.busy i = some c →
      c.task = .change settings dryRun planner → c.rest = .update revise next →
      ∃ t p, c.seen = some t ∧ dryRun = false ∧
        Coordinator.propose settings c.now planner t = .ok (some p) ∧
        (s.stored = t → revise s.stored = .ok p.started) ∧
        (s.stored ≠ t →
          ∃ e, revise s.stored = .error e ∧ e.kind = .concurrentModification)) ∧
    ∀ events₁ s₁ events₂, Run (Step sharing) (.start t₀) events₁ s₁ →
      Run (Step sharing) s₁ events₂ s → s.stored = s₁.stored →
      ∀ i task t t', .wrote i task t t' ∈ events₂ → t = s.stored ∧ t' = s.stored := by
  refine ⟨?_, ?_, ?_⟩
  · rcases accounts_run idle fresh run with ⟨ended, haccounts⟩
    exact ⟨ended, haccounts.numbered, haccounts.recorded, haccounts.next⟩
  · intro i c settings dryRun planner revise next hbusy htask hrest
    have hdrafts : ∀ i c, s.busy i = some c → c.Drafts :=
      run.invariant (p := fun s => ∀ i c, s.busy i = some c → c.Drafts) (by simp)
        fun _ _ _ h step => drafts_step h step
    have hdrafting := hdrafts i c hbusy settings dryRun planner htask
    rw [hrest] at hdrafting
    exact hdrafting.commits s.stored
  · -- A topology that comes back has its version come back.
    intro events₁ s₁ events₂ run₁ run₂ hback i task t t' hmem
    have hkeeping := keeping_run run₁ (keeping_start t₀)
    rcases (writes_of_version_eq run₂ hkeeping).2 (by rw [hback]) with ⟨hstored, hwrites⟩
    rcases hwrites i task t t' hmem with ⟨ht, ht'⟩
    exact ⟨ht.trans hstored.symm, ht'.trans hstored.symm⟩

/-- Two coordinators plan on the same topology.  The second one is refused, and tries again once
the driver has carried out the change of the first one. -/
def race : List Choice :=
  let first : Task := .change {} false (.perform [⟨"a", .joinCluster⟩])
  let second : Task := .change {} false (.perform [⟨"b", .joinCluster⟩])
  [.begin (.coordinator 0) first 0, .begin (.coordinator 1) second 0, .go (.coordinator 0),
    .go (.coordinator 1), .go (.coordinator 0), .go (.coordinator 1),
    .begin .driver (.advance {}) 0, .go .driver, .go .driver, .go .driver, .go .driver,
    .begin (.coordinator 1) second 0, .go (.coordinator 1), .go (.coordinator 1)]

theorem changes_serialized_race :
    Topology.initial.pending = none ∧ Topology.initial.lastChange = none ∧
      ∃ events s, (Scene.start .initial).follow race = some (events, s) ∧
        ∃ ended : List EndedChange, ended.length = 1 ∧
          record events = (ended.flatMap fun c => [.committed c.id, .ended c]) ++
            [.committed 2] := by
  refine ⟨rfl, rfl, ?_⟩
  have hpending : ((Scene.start .initial).follow race).map
      (fun r => r.2.stored.pending.map (·.id)) = some (some 2) := by
    decide +kernel
  have hpermitted : ∀ choice ∈ race, choice.Permitted sharing := by
    simp [race, Choice.Permitted, sharing]
  rcases hfollow : (Scene.start .initial).follow race with _ | ⟨events, s⟩
  · simp [hfollow] at hpending
  · have hid : s.stored.pending.map (·.id) = some 2 := by simpa [hfollow] using hpending
    rcases Option.map_eq_some_iff.1 hid with ⟨c, hc, hcid⟩
    rcases (changes_serialized rfl rfl (run_of_follow hpermitted hfollow)).1 with
      ⟨ended, -, hrecord, hnext⟩
    refine ⟨events, s, rfl, ended, ?_, ?_⟩
    · have hlength := hnext c hc
      omega
    · rw [hrecord, hc]
      simp [hcid]

end Interleaving

end ReplicaCluster
