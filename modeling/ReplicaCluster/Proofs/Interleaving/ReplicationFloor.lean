import ReplicaCluster.Proofs.Execution.Floor
import ReplicaCluster.Proofs.Interleaving.Driver
import ReplicaCluster.Proofs.Topology.Bootstrap

/-!
# The replication floor

A departure is checked on a snapshot and confirmed much later, perhaps after its change was
cancelled and another one begun.  Since the driver alone changes members, the check still holds by
then, so that no step of any interleaving takes a partition below the floor, or takes anything from
a partition that is below it already (`replicas_stay_above_floor`).
-/

namespace ReplicaCluster

namespace Interleaving

variable {good : Operation → Prop} {settings : Settings} {s s' : Scene} {p : PartitionId}
  {id : MemberId}

/-! ## What a turn leaves of the hosts -/

theorem Turn.floor_le (turn : Turn good settings s s') (kept : ∀ op, good op → ¬ op.Overwrites p) :
    min (s.stored.replicaCount p) settings.floor ≤ s'.stored.replicaCount p := by
  cases turn with
  | kept members =>
      rw [Topology.replicaCount_of_members members]
      exact min_le_left _ _
  | @marked c op prepared busy unwritten sane ready next stored =>
      rw [stored]
      calc min (s.stored.replicaCount p) settings.floor
        _ ≤ s.stored.replicaCount p := min_le_left _ _
        _ ≤ (prepared.inProgress.apply op.member s.stored).replicaCount p :=
          ready.replicaCount_inProgress p
  | confirmed sane underway members =>
      -- The check was made when the operation was marked, but it still stands.
      rw [Topology.replicaCount_of_members members]
      exact underway.ready.replicaCount_confirmed (kept _ sane)

theorem Turn.hosted_before (turn : Turn good settings s s')
    (kept : ∀ op, good op → ¬ op.Overwrites p) (h : (s'.stored.replica? id p).isSome) :
    ∃ other, (s.stored.replica? other p).isSome := by
  cases turn with
  | kept members =>
      rw [Topology.replica?_congr members] at h
      exact ⟨id, h⟩
  | marked busy unwritten sane ready next stored =>
      rw [stored] at h
      exact ready.hosted_of_inProgress h
  | confirmed sane underway members =>
      rw [Topology.replica?_congr members] at h
      exact ⟨id, underway.ready.hosted_of_confirmed (kept _ sane) h⟩

theorem Turn.partitions_eq (turn : Turn good settings s s')
    (kept : ∀ op, good op → ∀ p, ¬ op.Overwrites p) :
    s'.stored.partitions = s.stored.partitions := by
  refine Topology.partitions_congr fun p => ?_
  constructor
  · rintro ⟨id, h⟩
    exact turn.hosted_before (fun op sane => kept op sane p) h
  · -- The floor is at least one, so one replica stays.
    intro h
    have hfloor := turn.floor_le fun op sane => kept op sane p
    rw [← Topology.replicaCount_pos_iff] at h ⊢
    exact (lt_min h settings.floor_pos).trans_le hfloor

theorem Turn.leaversEmpty (turn : Turn good settings s s') (h : s.stored.LeaversEmpty) :
    s'.stored.LeaversEmpty := by
  cases turn with
  | kept members => exact h.congr members.symm
  | marked busy unwritten sane ready next stored =>
      rw [stored]
      exact ready.leaversEmpty_inProgress h
  | confirmed sane underway members =>
      exact (underway.ready.leaversEmpty_confirmed h).congr members.symm

theorem Turn.empty_of_removed (turn : Turn good settings s s')
    (known : (s.stored.status? id).isSome) (removed : s'.stored.status? id = none)
    (p : PartitionId) : s.stored.replica? id p = none := by
  cases turn with
  | kept members =>
      rw [Topology.status?_congr members] at removed
      simp [removed] at known
  | marked busy unwritten sane ready next stored =>
      -- Marking removes no member.
      have hknown := ready.isSome_status?_inProgress known
      rw [stored] at removed
      simp [removed] at hknown
  | confirmed sane underway members =>
      rw [Topology.status?_congr members] at removed
      exact underway.ready.empty_of_removed known removed p

/-! ## The floor in every run -/

/-- Coordinators handle requests whose plans overwrite no hosts, and cancel changes; the driver
carries the changes out. -/
def gentle (settings : Settings) : Party → Task → Prop
  | .driver, .advance own => own = settings
  | .coordinator _, .change _ _ planner => planner.Yields fun op => ∀ p, ¬ op.Overwrites p
  | .coordinator _, .cancel _ => True
  | _, _ => False

theorem disciplined_gentle (settings : Settings) :
    Disciplined (gentle settings) (fun op => ∀ p, ¬ op.Overwrites p) settings := by
  refine ⟨?_, ?_⟩
  · intro task duty
    cases task with
    | advance own => exact congrArg Task.advance duty
    | _ => exact duty.elim
  · intro n task now duty
    cases task with
    | change own dryRun planner => exact admits_change own dryRun now duty
    | cancel id => exact admits_cancel id now
    | manage own request => exact duty.elim
    | advance own => exact duty.elim

theorem leaversEmpty_of_allActive {t : Topology} (h : t.AllActive) : t.LeaversEmpty := by
  intro id hleaving p
  have hactive := h.members id .leaving hleaving
  cases hactive

/-- One driver carries out what any number of coordinators begin and cancel, in any order of atomic
steps and with failures and restarts at any point, from a topology in which all is active and
nothing pending.  Then at every step

* every partition keeps what it has, or as much of it as the floor demands;
* the partitions are those of the beginning;
* members on their way out host nothing, and neither does a member that is removed. -/
theorem replicas_stay_above_floor (settings : Settings) {t₀ : Topology} (idle : t₀.pending = none)
    (active : t₀.AllActive) {events : List Event} {e : Event}
    (run : Run (Step (gentle settings)) (.start t₀) events s)
    (step : Step (gentle settings) s e s') :
    (∀ p ∈ s.stored.partitions,
      min (s.stored.replicaCount p) (max settings.replicationFactor 1) ≤
        s'.stored.replicaCount p) ∧
    s.stored.partitions = t₀.partitions ∧ s'.stored.partitions = t₀.partitions ∧
    s.stored.LeaversEmpty ∧ s'.stored.LeaversEmpty ∧
    ∀ id, (s.stored.status? id).isSome → s'.stored.status? id = none →
      ∀ p, s.stored.replica? id p = none := by
  have discipline := disciplined_gentle settings
  have hpartitions : s.stored.partitions = t₀.partitions :=
    holds_of_turns (p := fun t => t.partitions = t₀.partitions) discipline idle rfl
      (fun _ _ hturn h => (hturn.partitions_eq fun op sane => sane).trans h) run
  have hleavers : s.stored.LeaversEmpty :=
    holds_of_turns discipline idle (leaversEmpty_of_allActive active)
      (fun _ _ hturn h => hturn.leaversEmpty h) run
  have hturn := ((sound_run discipline idle run).step discipline step).2
  refine ⟨?_, hpartitions, (hturn.partitions_eq fun op sane => sane).trans hpartitions, hleavers,
    hturn.leaversEmpty hleavers, ?_⟩
  · intro p _
    exact hturn.floor_le fun op sane => sane p
  · intro id known removed p
    exact hturn.empty_of_removed known removed p

/-- Two members that serve one partition. -/
def pair : Topology :=
  (Topology.initial.addMember "a" (.active (.insert ∅ 1 (.active 2)))).addMember "b"
    (.active (.insert ∅ 1 (.active 1)))

theorem allActive_pair : pair.AllActive := by
  have hserving : ∀ (priority : Priority) (p : PartitionId) (r : Replica),
      (Std.ExtTreeMap.insert ∅ 1 (Replica.active priority) : SortedMap PartitionId Replica)[p]? =
        some r → r.status = .active := by
    intro priority p r hr
    by_cases hp : 1 = p
    · have hactive : Replica.active priority = r := by
        simpa [Std.ExtTreeMap.getElem?_insert, hp] using hr
      rw [← hactive]
      rfl
    · simp [hp] at hr
  exact (Topology.allActive_initial.addMember "a" (hserving 2)).addMember "b" (hserving 1)

/-- A departure is cancelled while the member is told to leave, and confirmed nevertheless. -/
def lateDeparture : List Choice :=
  [.begin (.coordinator 0) (.change {} false (.perform [⟨"b", .leavePartition 1⟩])) 0,
    .go (.coordinator 0), .go (.coordinator 0), .begin .driver (.advance {}) 0, .go .driver,
    .go .driver, .go .driver, .begin (.coordinator 1) (.cancel 1) 0, .go (.coordinator 1)]

theorem replicas_stay_above_floor_lateDeparture :
    pair.pending = none ∧ pair.AllActive ∧
      ∃ events s e s', (Scene.start pair).follow lateDeparture = some (events, s) ∧
        s.act (.go .driver) = some (e, s') ∧ s.stored.pending = none ∧
        s.stored.replicaCount 1 = 2 ∧ 1 ≤ s'.stored.replicaCount 1 := by
  refine ⟨rfl, allActive_pair, ?_⟩
  have hcount : ((Scene.start pair).follow lateDeparture).map (fun r =>
      (r.2.stored.pending, r.2.stored.replicaCount 1, r.2.stored.partitions,
        (r.2.act (.go .driver)).isSome)) = some (none, 2, [1], true) := by
    decide +kernel
  have hpermitted : ∀ choice ∈ lateDeparture, choice.Permitted (gentle {}) := by
    simp [lateDeparture, Choice.Permitted, gentle, Planner.Yields, Planner.perform,
      Operation.Overwrites]
  rcases hfollow : (Scene.start pair).follow lateDeparture with _ | ⟨events, s⟩
  · simp [hfollow] at hcount
  · have hviews : s.stored.pending = none ∧ s.stored.replicaCount 1 = 2 ∧
        s.stored.partitions = [1] ∧ (s.act (.go .driver)).isSome = true := by
      simpa [hfollow] using hcount
    rcases hviews with ⟨hpending, htwo, hpartitions, hacts⟩
    rcases Option.isSome_iff_exists.1 hacts with ⟨⟨e, s'⟩, hact⟩
    have hgo : (Choice.go .driver).Permitted (gentle {}) := trivial
    have hfloor := (replicas_stay_above_floor {} rfl allActive_pair
      (run_of_follow hpermitted hfollow) (step_of_act hgo hact)).1 1 (by simp [hpartitions])
    refine ⟨events, s, e, s', rfl, hact, hpending, htwo, ?_⟩
    rw [htwo] at hfloor
    exact hfloor

end Interleaving

end ReplicaCluster
