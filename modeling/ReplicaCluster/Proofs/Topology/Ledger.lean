import ReplicaCluster.Topology.Ledger

/-!
# The ledger of changes — what starting, advancing and cancelling yield

Each operation on the ledger is described once, by the topology that it yields.  Two topologies
that differ in the time of their last change alone (`Topology.untimed`) are told apart by none of
them.
-/

namespace ReplicaCluster

def EndedChange.untimed (c : EndedChange) : EndedChange := { c with endedAt := 0 }

/-- An update changes nothing, or leads to the next version. -/
theorem Update.version_apply (u : Update) (member : MemberId) (t : Topology) :
    u.apply member t = t ∨ (u.apply member t).version = t.version + 1 := by
  cases u with
  | unchanged => exact Or.inl rfl
  | _ => exact Or.inr rfl

namespace Topology

variable {t t' : Topology} {c : PendingChange} {op : Operation} {rest : List Operation}

/-! ## Starting -/

def begun (t : Topology) (operations : List Operation) : Topology :=
  { t with version := t.version + 1, pending := some (.start t.nextChangeId operations) }

theorem startChange_eq_ok_iff {operations : List Operation} :
    t.startChange operations = .ok t' ↔
      t.pending = none ∧ operations ≠ [] ∧ t' = t.begun operations := by
  unfold startChange
  cases hpending : t.pending with
  | some c => simp [refuse]
  | none =>
      by_cases hops : operations = []
      · simp [hops, refuse]
      · have hempty : operations.isEmpty = false := by simpa using hops
        simp only [hempty, Bool.false_eq_true, if_false, Except.ok.injEq, ne_eq, hops,
          not_false_eq_true, true_and]
        exact eq_comm

/-! ## Advancing -/

/-- The topology with one operation of the pending change confirmed by an update. -/
def advanced (t : Topology) (now : Int) (member : MemberId) (u : Update) (c : PendingChange) :
    Topology :=
  let settled := (u.apply member t).settle now c.advance
  { settled with version := settled.version + 1 }

theorem next?_eq_some_iff :
    t.next? = some op ↔ ∃ c rest, t.pending = some c ∧ c.remaining = op :: rest := by
  unfold next? PendingChange.next?
  cases t.pending with
  | none => simp
  | some c => simp [List.head?_eq_some_iff]

theorem advanceChange_of_pending (hpending : t.pending = some c)
    (hremaining : c.remaining = op :: rest) (now : Int) (u : Update) :
    t.advanceChange now op.member u = .ok (t.advanced now op.member u c) := by
  have hnext : t.next? = some op := next?_eq_some_iff.2 ⟨c, rest, hpending, hremaining⟩
  simp [advanceChange, hnext, hpending, advanced]

theorem advanceChange_eq_ok_iff {now : Int} {member : MemberId} {u : Update} :
    t.advanceChange now member u = .ok t' ↔
      ∃ c op rest, t.pending = some c ∧ c.remaining = op :: rest ∧ op.member = member ∧
        t' = t.advanced now member u c := by
  constructor
  · intro hadvance
    cases hnext : t.next? with
    | none => simp [advanceChange, hnext, refuse] at hadvance
    | some op =>
        by_cases hmember : op.member = member
        · rcases next?_eq_some_iff.1 hnext with ⟨c, rest, hpending, hremaining⟩
          rw [← hmember, advanceChange_of_pending hpending hremaining] at hadvance
          cases hadvance
          exact ⟨c, op, rest, hpending, hremaining, hmember, by rw [hmember]⟩
        · simp [advanceChange, hnext, hmember, refuse] at hadvance
  · rintro ⟨c, op, rest, hpending, hremaining, rfl, rfl⟩
    exact advanceChange_of_pending hpending hremaining now u

@[simp] theorem version_settle (now : Int) (c : PendingChange) :
    (t.settle now c).version = t.version := by
  unfold settle
  split <;> rfl

/-- Confirming an operation takes one version more than its update. -/
theorem version_advanced (t : Topology) (now : Int) (member : MemberId) (u : Update)
    (c : PendingChange) :
    (t.advanced now member u c).version = (u.apply member t).version + 1 := by
  simp [advanced]

@[simp] theorem members_settle (now : Int) (c : PendingChange) :
    (t.settle now c).members = t.members := by
  unfold settle
  split <;> rfl

@[simp] theorem members_advanced (now : Int) (member : MemberId) (u : Update) :
    (t.advanced now member u c).members = (u.apply member t).members := by
  simp [advanced]

/-! ## Topologies up to the time of the last change -/

/-- A topology without the time of its last change. -/
def untimed (t : Topology) : Topology :=
  { t with lastChange := t.lastChange.map EndedChange.untimed }

theorem untimed_apply (u : Update) (member : MemberId) (t : Topology) :
    (u.apply member t).untimed = u.apply member t.untimed := by
  cases u <;> rfl

theorem members_eq_of_untimed (h : t.untimed = t'.untimed) : t.members = t'.members := by
  have hmembers := congrArg members h
  exact hmembers

theorem pending_eq_of_untimed (h : t.untimed = t'.untimed) : t.pending = t'.pending := by
  have hpending := congrArg pending h
  exact hpending

theorem untimed_settle (now : Int) (c : PendingChange) :
    (t.settle now c).untimed = (t.untimed.settle 0 c).untimed := by
  unfold settle
  split
  · rfl
  · simp only [untimed, Option.map_map]
    congr 1

/-- Neither the time nor the record of the last change bears on how a change is advanced. -/
theorem untimed_advanced (h : t.untimed = t'.untimed) (now now' : Int) (member : MemberId)
    (u : Update) : (t.advanced now member u c).untimed = (t'.advanced now' member u c).untimed := by
  -- Both sides come to what settling the untimed topology yields, whatever the time.
  let raise (t : Topology) : Topology := { t with version := t.version + 1 }
  have hraise : ∀ (t : Topology) (now : Int),
      (t.advanced now member u c).untimed =
        raise ((u.apply member t.untimed).settle 0 c.advance).untimed := by
    intro t now
    rw [← untimed_apply, ← untimed_settle]
    rfl
  rw [hraise t now, hraise t' now', h]

end Topology

end ReplicaCluster
