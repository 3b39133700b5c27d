import ReplicaCluster.Proofs.Topology.Ledger

/-!
# The ledger of changes — what is on record after any number of revisions

A topology is revised by its own operations (`Mutation`), in any order and whether or not they
succeed.  A `Deed` is what an observer of the calls writes down: which plan was started, which
operation was advanced, that a change was cancelled.

The ledger says the same as that list (`ledger_faithful`).  The list falls into chapters, one for
each change that has ended, and what was done of the pending change so far; the record of the last
change is that of the last chapter.
-/

namespace ReplicaCluster

/-! ## Revisions and what an observer sees of them -/

/-- What a revision did to the ledger. -/
inductive Deed
  | started (plan : List Operation)
  | advanced (op : Operation)
  | cancelled
  deriving DecidableEq

def Deed.plan? : Deed → Option (List Operation)
  | .started plan => some plan
  | .advanced _ | .cancelled => none

/-- A revision of a topology by one of its own operations. -/
inductive Mutation
  | start (operations : List Operation)
  | advance (now : Int) (member : MemberId) (confirmed : Update)
  | cancel (now : Int)
  | update (member : MemberId) (update : Update)
  | reviseMember (id : MemberId) (revise : Option Member → Option Member)
  | addMember (id : MemberId) (m : Member)
  | overwriteReplicas (partition : PartitionId) (priorities : SortedMap MemberId Priority)

namespace Mutation

def attempt (t : Topology) : Mutation → Except Failure Topology
  | start operations => t.startChange operations
  | advance now member u => t.advanceChange now member u
  | cancel now => .ok (t.cancelChange now)
  | update member u => .ok (u.apply member t)
  | reviseMember id revise => .ok (t.updateMember id revise)
  | addMember id m => .ok (t.addMember id m)
  | overwriteReplicas p priorities => .ok (t.overwriteReplicas p priorities)

/-- A mutation that fails leaves the topology as it was. -/
def after (m : Mutation) (t : Topology) : Topology :=
  match m.attempt t with
  | .ok t' => t'
  | .error _ => t

/-- What an observer writes down of a mutation, which is nothing if it fails. -/
def deeds (m : Mutation) (t : Topology) : List Deed :=
  match m, m.attempt t with
  | start operations, .ok _ => [.started operations]
  | advance .., .ok _ => t.next?.toList.map .advanced
  | cancel _, .ok _ => t.pending.toList.map fun _ => .cancelled
  | _, _ => []

/-- All that a mutation can do to the ledger, with what is written down of it. -/
inductive Booking (t t' : Topology) : List Deed → Prop
  | kept (pending : t'.pending = t.pending) (last : t'.lastChange = t.lastChange) :
      Booking t t' []
  | started {plan : List Operation} (idle : t.pending = none) (nonempty : plan ≠ [])
      (pending : t'.pending = some (.start t.nextChangeId plan))
      (last : t'.lastChange = t.lastChange) :
      Booking t t' [.started plan]
  | advanced {c : PendingChange} {op : Operation} {rest : List Operation}
      (before : t.pending = some c) (remaining : c.remaining = op :: rest) (more : rest ≠ [])
      (pending : t'.pending = some ⟨c.id, rest, c.done ++ [op]⟩)
      (last : t'.lastChange = t.lastChange) :
      Booking t t' [.advanced op]
  | completed {c : PendingChange} {op : Operation} {now : Int}
      (before : t.pending = some c) (remaining : c.remaining = [op]) (pending : t'.pending = none)
      (last : t'.lastChange = some ⟨c.id, .completed, c.done ++ [op], now⟩) :
      Booking t t' [.advanced op]
  | cancelled {c : PendingChange} {now : Int} (before : t.pending = some c)
      (pending : t'.pending = none)
      (last : t'.lastChange = some ⟨c.id, .cancelled, c.done, now⟩) :
      Booking t t' [.cancelled]

theorem booking_start (t : Topology) (operations : List Operation) :
    Booking t ((start operations).after t) ((start operations).deeds t) := by
  cases hstart : t.startChange operations with
  | error e => simpa [after, deeds, attempt, hstart] using Booking.kept (t := t) rfl rfl
  | ok t' =>
      rcases Topology.startChange_eq_ok_iff.1 hstart with ⟨hidle, hnonempty, hbegun⟩
      have hstarted : Booking t (t.begun operations) [.started operations] :=
        .started hidle hnonempty rfl rfl
      simpa [after, deeds, attempt, hstart, hbegun] using hstarted

theorem booking_advance (t : Topology) (now : Int) (member : MemberId) (u : Update) :
    Booking t ((advance now member u).after t) ((advance now member u).deeds t) := by
  cases hadvance : t.advanceChange now member u with
  | error e => simpa [after, deeds, attempt, hadvance] using Booking.kept (t := t) rfl rfl
  | ok t' =>
      rcases Topology.advanceChange_eq_ok_iff.1 hadvance with
        ⟨c, op, rest, hpending, hremaining, -, rfl⟩
      have hnext : t.next? = some op := Topology.next?_eq_some_iff.2 ⟨c, rest, hpending, hremaining⟩
      have hafter : (advance now member u).after t = t.advanced now member u c := by
        simp [after, attempt, hadvance]
      have hdeeds : (advance now member u).deeds t = [.advanced op] := by
        simp [deeds, attempt, hadvance, hnext]
      rw [hafter, hdeeds]
      -- The last operation of a change completes it.
      by_cases hrest : rest = []
      · subst hrest
        refine @Booking.completed t _ _ _ now hpending hremaining ?_ ?_
        · simp [Topology.advanced, Topology.settle, PendingChange.advance, hremaining]
        · simp [Topology.advanced, Topology.settle, PendingChange.advance, hremaining]
      · refine .advanced hpending hremaining hrest ?_ ?_
        · simp [Topology.advanced, Topology.settle, PendingChange.advance, hremaining, hrest]
        · simp [Topology.advanced, Topology.settle, PendingChange.advance, hremaining, hrest]

theorem booking_cancel (t : Topology) (now : Int) :
    Booking t ((cancel now).after t) ((cancel now).deeds t) := by
  cases hpending : t.pending with
  | none =>
      simpa [after, deeds, attempt, Topology.cancelChange, hpending] using
        Booking.kept (t := t) rfl rfl
  | some c =>
      have hdeeds : (cancel now).deeds t = [.cancelled] := by
        simp [deeds, attempt, hpending]
      rw [hdeeds]
      refine @Booking.cancelled t _ _ now hpending ?_ ?_
      · simp [after, attempt, Topology.cancelChange, hpending]
      · simp [after, attempt, Topology.cancelChange, hpending]

theorem booking (m : Mutation) (t : Topology) : Booking t (m.after t) (m.deeds t) := by
  cases m with
  | start operations => exact booking_start t operations
  | advance now member u => exact booking_advance t now member u
  | cancel now => exact booking_cancel t now
  | update member u => exact .kept (u.pending_apply member t) (u.lastChange_apply member t)
  | reviseMember id revise => exact .kept rfl rfl
  | addMember id m => exact .kept rfl rfl
  | overwriteReplicas p priorities => exact .kept rfl rfl

end Mutation

/-! ## Chapters -/

/-- A change that has ended, as an observer saw it. -/
structure Chapter where
  /-- The operations that it was started with. -/
  plan : List Operation
  /-- The operations of it that were advanced. -/
  advanced : List Operation
  outcome : Outcome
  endedAt : Int

namespace Chapter

def deeds (c : Chapter) : List Deed :=
  .started c.plan :: c.advanced.map .advanced ++
    match c.outcome with
    | .completed => []
    | .cancelled => [.cancelled]

/-- What the ledger should say of the change with the given number. -/
def record (c : Chapter) (id : Nat) : EndedChange := ⟨id, c.outcome, c.advanced, c.endedAt⟩

/-- A completed change has carried out its whole plan, and a cancelled one the beginning of it. -/
def Sound (c : Chapter) : Prop :=
  match c.outcome with
  | .completed => c.advanced = c.plan
  | .cancelled => c.advanced <+: c.plan ∧ c.advanced ≠ c.plan

end Chapter

/-- The deeds that the pending change has seen so far. -/
def PendingChange.deeds (c : PendingChange) : List Deed :=
  .started c.operations :: c.done.map .advanced

/-- The ledger of a topology agrees with what was written down. -/
structure Faithful (chapters : List Chapter) (t : Topology) (deeds : List Deed) : Prop where
  told : deeds = chapters.flatMap Chapter.deeds ++ t.pending.toList.flatMap PendingChange.deeds
  sound : ∀ c ∈ chapters, c.Sound
  last : t.lastChange = chapters.getLast?.map (·.record chapters.length)
  pending : ∀ c, t.pending = some c → c.id = chapters.length + 1 ∧ c.remaining ≠ []

namespace Faithful

variable {chapters : List Chapter} {t t' : Topology} {deeds news : List Deed}

theorem nextChangeId (h : Faithful chapters t deeds) : t.nextChangeId = chapters.length + 1 := by
  cases hlast : chapters.getLast? with
  | none =>
      have hnil : chapters = [] := List.getLast?_eq_none_iff.1 hlast
      simp [Topology.nextChangeId, h.last, hnil]
  | some c => simp [Topology.nextChangeId, h.last, hlast, Chapter.record]

/-- A change that has ended adds its chapter. -/
theorem closes {c : PendingChange} (h : Faithful chapters t deeds) (hpending : t.pending = some c)
    (chapter : Chapter) (sound : chapter.Sound)
    (hdeeds : c.deeds ++ news = chapter.deeds) (hnone : t'.pending = none)
    (hlast : t'.lastChange = some (chapter.record c.id)) :
    Faithful (chapters ++ [chapter]) t' (deeds ++ news) := by
  refine ⟨?_, ?_, ?_, ?_⟩
  · simp [h.told, hpending, hnone, hdeeds]
  · intro other hother
    rcases List.mem_append.1 hother with hearlier | hthis
    · exact h.sound other hearlier
    · have hsame : other = chapter := by simpa using hthis
      rw [hsame]
      exact sound
  · simp [hlast, (h.pending c hpending).1]
  · intro c' hc'
    simp [hnone] at hc'

theorem step (h : Faithful chapters t deeds) (booking : Mutation.Booking t t' news) :
    ∃ chapters', Faithful chapters' t' (deeds ++ news) := by
  cases booking with
  | kept pending last =>
      refine ⟨chapters, ?_, h.sound, by rw [last, h.last], ?_⟩
      · simp [h.told, pending]
      · intro c hc
        exact h.pending c (by rw [← pending, hc])
  | @started plan idle nonempty pending last =>
      refine ⟨chapters, ?_, h.sound, by rw [last, h.last], ?_⟩
      · simp [h.told, idle, pending, PendingChange.deeds, PendingChange.operations,
          PendingChange.start]
      · intro c hc
        have hstart : PendingChange.start t.nextChangeId plan = c := by simpa [pending] using hc
        subst hstart
        exact ⟨h.nextChangeId, nonempty⟩
  | @advanced c op rest before remaining more pending last =>
      refine ⟨chapters, ?_, h.sound, by rw [last, h.last], ?_⟩
      · simp [h.told, before, pending, PendingChange.deeds, PendingChange.operations, remaining]
      · intro c' hc'
        have hrest : (⟨c.id, rest, c.done ++ [op]⟩ : PendingChange) = c' := by
          simpa [pending] using hc'
        subst hrest
        exact ⟨(h.pending c before).1, more⟩
  | @completed c op now before remaining pending last =>
      -- All of the plan has been advanced by now.
      let chapter : Chapter := ⟨c.operations, c.done ++ [op], .completed, now⟩
      have hsound : chapter.Sound := by
        simp [chapter, Chapter.Sound, PendingChange.operations, remaining]
      exact ⟨_, h.closes before chapter hsound
        (by simp [chapter, Chapter.deeds, PendingChange.deeds]) pending last⟩
  | @cancelled c now before pending last =>
      -- Something of the plan remains, so what was advanced is less than all of it.
      let chapter : Chapter := ⟨c.operations, c.done, .cancelled, now⟩
      have hsound : chapter.Sound := by
        refine ⟨List.prefix_append _ _, ?_⟩
        simpa [chapter, PendingChange.operations] using (h.pending c before).2
      exact ⟨_, h.closes before chapter hsound
        (by simp [chapter, Chapter.deeds, PendingChange.deeds]) pending last⟩

end Faithful

/-! ## Any number of revisions -/

/-- A topology with all that was written down of the mutations that led to it. -/
structure Chronicle where
  topology : Topology
  deeds : List Deed

def Chronicle.extend (c : Chronicle) (m : Mutation) : Chronicle :=
  ⟨m.after c.topology, c.deeds ++ m.deeds c.topology⟩

def chronicle (t : Topology) (mutations : List Mutation) : Chronicle :=
  mutations.foldl Chronicle.extend ⟨t, []⟩

theorem exists_faithful_foldl (mutations : List Mutation) :
    ∀ {c : Chronicle} {chapters : List Chapter}, Faithful chapters c.topology c.deeds →
      ∃ chapters', Faithful chapters' (mutations.foldl Chronicle.extend c).topology
        (mutations.foldl Chronicle.extend c).deeds := by
  induction mutations with
  | nil =>
      intro c chapters h
      exact ⟨chapters, h⟩
  | cons m rest ih =>
      intro c chapters h
      rcases h.step (m.booking c.topology) with ⟨chapters', h'⟩
      exact ih (c := c.extend m) h'

theorem exists_faithful_chronicle {t : Topology} (idle : t.pending = none)
    (fresh : t.lastChange = none) (mutations : List Mutation) :
    ∃ chapters, Faithful chapters (chronicle t mutations).topology
      (chronicle t mutations).deeds := by
  have hstart : Faithful [] t [] := by
    refine ⟨?_, ?_, ?_, ?_⟩
    · simp [idle]
    · simp
    · simp [fresh]
    · intro c hc
      simp [idle] at hc
  exact exists_faithful_foldl mutations (c := ⟨t, []⟩) hstart

namespace Faithful

variable {chapters : List Chapter} {t : Topology} {deeds : List Deed}

/-- The plan that was started last is that of the pending change. -/
theorem last_plan (h : Faithful chapters t deeds) {c : PendingChange}
    (hpending : t.pending = some c) : (deeds.filterMap Deed.plan?).getLast? = some c.operations := by
  have hnone : (c.done.map Deed.advanced).filterMap Deed.plan? = [] := by
    simp [List.filterMap_map, Function.comp_def, Deed.plan?]
  have hplans : deeds.filterMap Deed.plan? =
      (chapters.flatMap Chapter.deeds).filterMap Deed.plan? ++ [c.operations] := by
    simp [h.told, hpending, PendingChange.deeds, Deed.plan?, hnone]
  simp [hplans]

theorem hasPendingChange_eq (h : Faithful chapters t deeds) :
    t.hasPendingChange = t.pending.isSome := by
  cases hpending : t.pending with
  | none => simp [Topology.hasPendingChange, hpending]
  | some c => simp [Topology.hasPendingChange, hpending, (h.pending c hpending).2]

/-- The record of the last change is replaced only by that of the change with the next number. -/
theorem lastChange_of_booking {t' : Topology} {news : List Deed} (h : Faithful chapters t deeds)
    (booking : Mutation.Booking t t' news) :
    t'.lastChange = t.lastChange ∨
      ∃ ended, t'.lastChange = some ended ∧ ended.id = t.nextChangeId := by
  cases booking with
  | kept pending last => exact Or.inl last
  | started idle nonempty pending last => exact Or.inl last
  | advanced before remaining more pending last => exact Or.inl last
  | @completed c op now before remaining pending last =>
      exact Or.inr ⟨_, last, by rw [h.nextChangeId, (h.pending c before).1]⟩
  | @cancelled c now before pending last =>
      exact Or.inr ⟨_, last, by rw [h.nextChangeId, (h.pending c before).1]⟩

end Faithful

theorem startChange_succeeds_iff (t : Topology) (operations : List Operation) :
    (∃ t', t.startChange operations = .ok t') ↔ operations ≠ [] ∧ t.pending = none := by
  simp only [Topology.startChange_eq_ok_iff]
  constructor
  · rintro ⟨t', hidle, hnonempty, -⟩
    exact ⟨hnonempty, hidle⟩
  · rintro ⟨hnonempty, hidle⟩
    exact ⟨_, hidle, hnonempty, rfl⟩

/-- However a topology without pending or last change is revised,

* a pending change has an operation left, consists of the operations of the plan that was started
  last, and has the number after that of the last change;
* what was written down falls into chapters, of which a completed one advances its whole plan and a
  cancelled one the beginning of it, and the pending change so far; the last change is that of the
  last chapter, and its number is the number of chapters;
* the next mutation leaves the last change alone or ends the change with the next number;
* a change can be started just if it has operations and none is pending. -/
theorem ledger_faithful {t₀ : Topology} (idle : t₀.pending = none) (fresh : t₀.lastChange = none)
    (mutations : List Mutation) :
    let t := (chronicle t₀ mutations).topology
    let deeds := (chronicle t₀ mutations).deeds
    let nextId := (t.lastChange.map (·.id)).getD 0 + 1
    (∀ c, t.pending = some c →
      c.remaining ≠ [] ∧ (deeds.filterMap Deed.plan?).getLast? = some (c.done ++ c.remaining) ∧
        c.id = nextId) ∧
    t.hasPendingChange = t.pending.isSome ∧
    (∃ chapters : List Chapter,
      deeds = chapters.flatMap Chapter.deeds ++ t.pending.toList.flatMap PendingChange.deeds ∧
      (∀ c ∈ chapters, c.Sound) ∧
      t.lastChange = chapters.getLast?.map (·.record chapters.length)) ∧
    (∀ m : Mutation, (m.after t).lastChange = t.lastChange ∨
      ∃ ended, (m.after t).lastChange = some ended ∧ ended.id = nextId) ∧
    ∀ operations, (∃ t', t.startChange operations = .ok t') ↔
      operations ≠ [] ∧ t.pending = none := by
  intro t deeds nextId
  rcases exists_faithful_chronicle idle fresh mutations with ⟨chapters, h⟩
  refine ⟨?_, h.hasPendingChange_eq, ⟨chapters, h.told, h.sound, h.last⟩,
    fun m => h.lastChange_of_booking (m.booking t), startChange_succeeds_iff t⟩
  intro c hpending
  have hid : c.id = nextId := (h.pending c hpending).1.trans h.nextChangeId.symm
  exact ⟨(h.pending c hpending).2, h.last_plan hpending, hid⟩

/-- A change is cancelled after its first operation, and another one begun. -/
def revisions : List Mutation :=
  [.start [⟨"a", .joinCluster⟩, ⟨"b", .joinCluster⟩], .advance 1 "b" .memberActive,
    .start [⟨"c", .joinCluster⟩], .update "a" .memberJoining, .advance 2 "a" .memberActive,
    .cancel 3, .cancel 4, .start [], .start [⟨"c", .joinCluster⟩, ⟨"a", .leaveCluster⟩],
    .addMember "c" .joining, .advance 5 "c" .memberActive]

theorem ledger_faithful_revisions :
    Topology.initial.pending = none ∧ Topology.initial.lastChange = none ∧
      (chronicle .initial revisions).deeds =
        [.started [⟨"a", .joinCluster⟩, ⟨"b", .joinCluster⟩], .advanced ⟨"a", .joinCluster⟩,
          .cancelled, .started [⟨"c", .joinCluster⟩, ⟨"a", .leaveCluster⟩],
          .advanced ⟨"c", .joinCluster⟩] ∧
      ∃ c, (chronicle .initial revisions).topology.pending = some c ∧ c.id = 2 ∧
        c.done ++ c.remaining = [⟨"c", .joinCluster⟩, ⟨"a", .leaveCluster⟩] := by
  have hdeeds : (chronicle .initial revisions).deeds =
      [.started [⟨"a", .joinCluster⟩, ⟨"b", .joinCluster⟩], .advanced ⟨"a", .joinCluster⟩,
        .cancelled, .started [⟨"c", .joinCluster⟩, ⟨"a", .leaveCluster⟩],
        .advanced ⟨"c", .joinCluster⟩] := by
    decide +kernel
  have hended : (chronicle .initial revisions).topology.lastChange.map (·.id) = some 1 ∧
      (chronicle .initial revisions).topology.pending.isSome := by
    decide +kernel
  rcases Option.isSome_iff_exists.1 hended.2 with ⟨c, hpending⟩
  have hidle : Topology.initial.pending = none := rfl
  have hfresh : Topology.initial.lastChange = none := rfl
  rcases (ledger_faithful hidle hfresh revisions).1 c hpending with ⟨-, hplan, hid⟩
  have hoperations : c.done ++ c.remaining =
      [⟨"c", .joinCluster⟩, ⟨"a", .leaveCluster⟩] := by
    simpa [hdeeds, List.filterMap_cons, Deed.plan?, eq_comm] using hplan
  exact ⟨hidle, hfresh, hdeeds, c, hpending, by simpa [hended.1] using hid, hoperations⟩

end ReplicaCluster
