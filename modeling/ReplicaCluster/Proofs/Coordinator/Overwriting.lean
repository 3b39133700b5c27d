import ReplicaCluster.Proofs.Coordinator.Resumption
import ReplicaCluster.Proofs.Placement.Ranking

/-!
# Partitions with new hosts

The coordinator may give a partition new hosts, whatever its present ones are.  All members are
revised at once for that, but only as far as this partition goes (`Topology.AlikeBeside`).  So the
operation passes its check as before at any time after that, and its writes, however often they are
made, leave the partition with just the new hosts (`Ready.rehosted_after`).  The same holds of
attempts that fail (`overwriting_gives_hosts`).
-/

namespace ReplicaCluster

namespace Topology

variable {t t' t'' : Topology} {p : PartitionId} {hosts : List MemberId}

/-- The topologies differ in the replicas of one partition at most, as far as members go. -/
structure AlikeBeside (p : PartitionId) (t t' : Topology) : Prop where
  status : ∀ id, t'.status? id = t.status? id
  replica : ∀ id q, q ≠ p → t'.replica? id q = t.replica? id q

/-- In the second topology just the listed members host the partition, all with serving replicas, and
with priorities that descend to 1.  Nothing else has changed for any member. -/
structure Rehosted (p : PartitionId) (hosts : List MemberId) (t t' : Topology) : Prop
    extends AlikeBeside p t t' where
  replica?_eq_some_iff : ∀ id r, t'.replica? id p = some r ↔
    ∃ i, hosts[i]? = some id ∧ r = .active (hosts.length - i)

theorem AlikeBeside.refl (p : PartitionId) (t : Topology) : AlikeBeside p t t :=
  ⟨fun _ => rfl, fun _ _ _ => rfl⟩

theorem AlikeBeside.trans (h : AlikeBeside p t t') (h' : AlikeBeside p t' t'') :
    AlikeBeside p t t'' :=
  ⟨fun id => (h'.status id).trans (h.status id),
    fun id q hq => (h'.replica id q hq).trans (h.replica id q hq)⟩

theorem Rehosted.after (h : Rehosted p hosts t' t'') (before : AlikeBeside p t t') :
    Rehosted p hosts t t'' :=
  ⟨before.trans h.toAlikeBeside, h.replica?_eq_some_iff⟩

theorem Rehosted.congr (h : Rehosted p hosts t t') (hmembers : t'.members = t''.members) :
    Rehosted p hosts t t'' := by
  refine ⟨⟨fun id => ?_, fun id q hq => ?_⟩, fun id r => ?_⟩
  · rw [← status?_congr hmembers, h.status]
  · rw [← replica?_congr hmembers, h.replica id q hq]
  · rw [← replica?_congr hmembers, h.replica?_eq_some_iff]

end Topology

open ReplicaCluster.Topology

variable {settings : Settings} {t t' : Topology} {m : MemberId} {p : PartitionId}
  {hosts : List MemberId} {prepared : Prepared}

/-! ## The two writes -/

theorem exists_ready_overwriteHosts_iff :
    (∃ prepared, Ready settings t ⟨m, .overwriteHosts p hosts⟩ prepared) ↔
    settings.coordinator = some m ∧ hosts ≠ [] ∧ hosts.Nodup ∧
      ∀ id ∈ hosts, ∃ s, t.status? id = some s ∧ s ≠ .leaving := by
  constructor
  · rintro ⟨prepared, ready⟩
    cases ready with
    | overwriteHosts coordinator nonempty nodup known =>
        exact ⟨coordinator, nonempty, nodup, known⟩
  · rintro ⟨coordinator, nonempty, nodup, known⟩
    exact ⟨_, .overwriteHosts coordinator nonempty nodup known⟩

namespace Ready

/-- Whatever becomes of the partition, the operation stays ready. -/
theorem of_alikeBeside (ready : Ready settings t ⟨m, .overwriteHosts p hosts⟩ prepared)
    (h : AlikeBeside p t t') : Ready settings t' ⟨m, .overwriteHosts p hosts⟩ prepared := by
  cases ready with
  | overwriteHosts coordinator nonempty nodup known =>
      refine .overwriteHosts coordinator nonempty nodup fun id hid => ?_
      rw [h.status]
      exact known id hid

/-- There is nothing to mark. -/
theorem inProgress_overwriteHosts
    (ready : Ready settings t ⟨m, .overwriteHosts p hosts⟩ prepared) :
    prepared.inProgress = .unchanged := by
  cases ready
  rfl

theorem rehosted_confirmed (ready : Ready settings t ⟨m, .overwriteHosts p hosts⟩ prepared) :
    Rehosted p hosts t (prepared.confirmed.apply m t) := by
  have hnodup : hosts.Nodup := (exists_ready_overwriteHosts_iff.1 ⟨_, ready⟩).2.2.1
  have hstatus := ready.status?_confirmed
  have hreplica := ready.replica?_confirmed
  refine ⟨⟨fun id => hstatus id, fun id q hq => ?_⟩, fun id r => ?_⟩
  · simpa [Operation.confirms, hq.symm] using hreplica id q
  · rw [hreplica]
    simp only [Operation.confirms, if_true, Option.map_eq_some_iff,
      Priorities.getElem?_descending_iff hnodup]
    constructor
    · rintro ⟨_, ⟨i, hi, rfl⟩, rfl⟩
      exact ⟨i, hi, rfl⟩
    · rintro ⟨i, hi, rfl⟩
      exact ⟨_, ⟨i, hi, rfl⟩, rfl⟩

/-- The two writes, in any number and order, touch nothing beside the partition. -/
theorem alikeBeside_foldl (ready : Ready settings t ⟨m, .overwriteHosts p hosts⟩ prepared)
    {writes : List Update} (own : ∀ u ∈ writes, u = prepared.inProgress ∨ u = prepared.confirmed) :
    AlikeBeside p t (writes.foldl (fun t u => u.apply m t) t) := by
  induction writes generalizing t with
  | nil => exact .refl p t
  | cons u rest ih =>
      rcases List.forall_mem_cons.1 own with ⟨hu, hrest⟩
      have hfirst : AlikeBeside p t (u.apply m t) := by
        rcases hu with rfl | rfl
        · rw [ready.inProgress_overwriteHosts]
          exact .refl p t
        · exact ready.rehosted_confirmed.toAlikeBeside
      exact hfirst.trans (ih (ready.of_alikeBeside hfirst) hrest)

end Ready

/-! ## Attempts -/

section Attempts

variable {id : Nat} {rest done : List Operation} {start last : Recorded (Scripted Store)}
  (pending : t.pending = some ⟨id, ⟨m, .overwriteHosts p hosts⟩ :: rest, done⟩)
  (ready : Ready settings t ⟨m, .overwriteHosts p hosts⟩ prepared)

include pending ready

/-- As there is nothing to mark, attempts that fail leave no trace in the store. -/
theorem Unreliable.Fails.stored_eq (h : Unreliable.Fails settings start last)
    (stored : start.state.state = .memory t) : last.state.state = .memory t := by
  rcases h.exists_iterate stored pending ready with ⟨n, hn⟩
  rw [hn, ready.inProgress_overwriteHosts]
  exact congrArg Store.memory (Function.iterate_fixed rfl n)

/-- An attempt that does not fail gives the partition its hosts, and none fails unless a step of it
does. -/
theorem Ready.rehosted_of_advance (stored : last.state.state = .memory t) (now : Int) :
    let attempt := (Execution.advance settings now).run Unreliable.host last
    (failureCount last.state.script = 0 → attempt.1 = .ok (some ⟨m, .overwriteHosts p hosts⟩)) ∧
      ∀ result, attempt.1 = .ok result →
        ∃ t', attempt.2.state.state = .memory t' ∧ Rehosted p hosts t t' := by
  intro attempt
  rcases last with ⟨⟨store, script⟩, writes, calls⟩
  cases stored
  have hattempt : Unreliable.Attempt now t _ _ prepared script calls attempt :=
    Unreliable.attempt_advance script writes calls now pending ready
  generalize attempt = outcome at hattempt
  cases hattempt with
  | unmarked fewer => exact ⟨fun hnone => by simp only at hnone; omega, by simp⟩
  | marked fewer => exact ⟨fun hnone => by simp only at hnone; omega, by simp⟩
  | confirmed same =>
      refine ⟨fun _ => rfl, fun _ _ => ⟨_, rfl, ready.rehosted_confirmed.congr ?_⟩⟩
      rw [ready.inProgress_overwriteHosts, members_advanced]
      rfl

end Attempts

/-! ## The whole operation -/

namespace Coordinator

/-- A partition may be given new hosts just by the member that is the coordinator, and just if they
are some, each of them listed once, all known and none about to leave.  After the second write of the
operation, whatever number of times any of the two were made before, and after an attempt that does
not fail, whatever number of attempts failed before, the partition has just these hosts.  All of them
serve, and their priorities descend from their number to 1.  No other partition has changed, nor has
the status of any member, and there are the same members.  When nothing fails any more, the next
attempt does not. -/
theorem overwriting_gives_hosts (settings : Settings) (t : Topology) (m : MemberId)
    (p : PartitionId) (hosts : List MemberId) :
    let op : Operation := ⟨m, .overwriteHosts p hosts⟩
    ((∃ prepared, op.prepare settings t = .ok prepared) ↔
      settings.coordinator = some m ∧ hosts ≠ [] ∧ hosts.Nodup ∧
        ∀ id ∈ hosts, ∃ s, t.status? id = some s ∧ s ≠ .leaving) ∧
    ∀ prepared, op.prepare settings t = .ok prepared →
      (∀ writes : List Update, (∀ u ∈ writes, u = prepared.inProgress ∨ u = prepared.confirmed) →
        let t' := writes.foldl (fun t u => u.apply m t) t
        op.prepare settings t' = .ok prepared ∧
          Rehosted p hosts t (prepared.confirmed.apply m t')) ∧
      ∀ (id : Nat) (rest done : List Operation) (start last : Recorded (Scripted Store)),
        t.pending = some ⟨id, op :: rest, done⟩ → start.state.state = .memory t →
        Unreliable.Fails settings start last → ∀ now : Int,
        let attempt := (Execution.advance settings now).run Unreliable.host last
        (failureCount last.state.script = 0 → attempt.1 = .ok (some op)) ∧
          ∀ result, attempt.1 = .ok result →
            ∃ t', attempt.2.state.state = .memory t' ∧ Rehosted p hosts t t' := by
  intro op
  refine ⟨?_, fun prepared checked => ⟨fun writes own => ?_, ?_⟩⟩
  · simp only [Operation.prepare_eq_ok_iff]
    exact exists_ready_overwriteHosts_iff
  · have ready := Operation.ready_of_prepare checked
    have hbeside := ready.alikeBeside_foldl own
    have hready := ready.of_alikeBeside hbeside
    exact ⟨Operation.prepare_of_ready hready, hready.rehosted_confirmed.after hbeside⟩
  · intro id rest done start last pending stored fails now
    have ready := Operation.ready_of_prepare checked
    exact ready.rehosted_of_advance pending (fails.stored_eq pending ready stored) now

/-- One host stays with another priority, one goes, and a member that is still joining comes in.  The
first attempt fails after the call. -/
theorem overwriting_gives_hosts_second :
    let settings : Settings := { coordinator := some "b" }
    let op : Operation := ⟨"b", .overwriteHosts 1 ["c", "a"]⟩
    let t : Topology := { (((Topology.initial.addMember "a"
        (.active (.ofList [(1, Replica.active 2), (2, .active 1)]))).addMember "b"
        (.active (.ofList [(1, Replica.joining 1)]))).addMember "c" .joining) with
      pending := some ⟨3, [op], []⟩ }
    let prepared : Prepared := ⟨.unchanged, .overwriteHosts "b" 1 (.descending ["c", "a"]),
      .overwriteReplicas 1 (Priorities.descending ["c", "a"])⟩
    let failure : Failure := ⟨.internal, "unreachable"⟩
    let start : Recorded (Scripted Store) :=
      ⟨⟨.memory t, [none, none, none, some failure]⟩, [], []⟩
    op.prepare settings t = .ok prepared ∧
      ∃ last t', Unreliable.Fails settings start last ∧ last.calls = [prepared.call] ∧
        ((Execution.advance settings 6).run Unreliable.host last).2.state.state = .memory t' ∧
        t'.replica? "c" 1 = some (.active 2) ∧ t'.replica? "a" 1 = some (.active 1) ∧
        t'.replica? "b" 1 = none ∧ t'.replica? "a" 2 = some (.active 1) ∧
        t'.status? "c" = some .joining := by
  intro settings op t prepared failure start
  have checked : op.prepare settings t = .ok prepared := by decide +kernel
  let first := (Execution.advance settings 5).run Unreliable.host start
  have hfirst : first.1 = .error failure := by decide +kernel
  have fails : Unreliable.Fails settings start first.2 := .again .none (Prod.ext hfirst rfl)
  have hcalls : first.2.calls = [prepared.call] := by decide +kernel
  have hviews : t.replica? "a" 2 = some (.active 1) ∧ t.status? "c" = some .joining := by
    decide +kernel
  rcases ((overwriting_gives_hosts settings t "b" 1 ["c", "a"]).2 prepared checked).2 3 [] [] start
    first.2 rfl rfl fails 6 with ⟨hsucceeds, hgives⟩
  rcases hgives _ (hsucceeds (by decide +kernel)) with ⟨t', ht', hrehosted⟩
  refine ⟨checked, first.2, t', fails, hcalls, ht', ?_, ?_, ?_, ?_, ?_⟩
  · exact (hrehosted.replica?_eq_some_iff "c" _).2 ⟨0, rfl, rfl⟩
  · exact (hrehosted.replica?_eq_some_iff "a" _).2 ⟨1, rfl, rfl⟩
  · refine Option.eq_none_iff_forall_ne_some.2 fun r hr => ?_
    rcases (hrehosted.replica?_eq_some_iff "b" r).1 hr with ⟨i, hi, -⟩
    exact absurd (List.mem_of_getElem? hi) (by decide)
  · rw [hrehosted.replica "a" 2 (by decide), hviews.1]
  · rw [hrehosted.status, hviews.2]

end Coordinator

end ReplicaCluster
