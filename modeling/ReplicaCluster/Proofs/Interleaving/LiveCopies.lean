import ReplicaCluster.Proofs.Execution.Serving
import ReplicaCluster.Proofs.Interleaving.Driver

/-!
# The last live copy of a partition

The floor below which no departure brings a partition counts replicas of any status.  An operation
that failed leaves its replica joining or leaving, and if its change is then cancelled, nothing
will ever finish it: the replica is stranded.  A later departure may count on stranded replicas and
take the last active one (`exists_run_without_live_copy`).

That is the only way to lose it.  Where nothing is left stranded between operations, every partition
has an active replica at all times (`live_copies`).
-/

namespace ReplicaCluster

namespace Topology

/-- The replica is joining or leaving, and the next operation is not about it. -/
def Stranded (t : Topology) (id : MemberId) (p : PartitionId) : Prop :=
  (∃ r, t.replica? id p = some r ∧ r.status ≠ .active) ∧
    ∀ op, t.next? = some op → ¬ (op.member = id ∧ op.partition? = some p)

def unstranded (t : Topology) : Bool :=
  t.members.toList.all fun (id, m) => m.replicas.toList.all fun (p, r) =>
    decide (r.status = .active) ||
      t.next?.any fun op => decide (op.member = id ∧ op.partition? = some p)

theorem not_stranded_of_unstranded {t : Topology} (h : t.unstranded) (id : MemberId)
    (p : PartitionId) : ¬ t.Stranded id p := by
  rintro ⟨⟨r, hr, hidle⟩, hnext⟩
  rcases Option.bind_eq_some_iff.1 hr with ⟨m, hm, hreplica⟩
  have hmember : (id, m) ∈ t.members.toList :=
    Std.ExtTreeMap.mem_toList_iff_getElem?_eq_some.2 hm
  have hentry : (p, r) ∈ m.replicas.toList :=
    Std.ExtTreeMap.mem_toList_iff_getElem?_eq_some.2 hreplica
  have htest := List.all_eq_true.1 (List.all_eq_true.1 h _ hmember) _ hentry
  rcases (Option.any_eq_true _ _).1 (by simpa [hidle] using htest) with ⟨op, hop, htarget⟩
  exact hnext op hop (by simpa using htarget)

end Topology

namespace Interleaving

variable {good : Operation → Prop} {settings : Settings} {s s' : Scene} {p : PartitionId}
  {events : List Event} {e : Event}

/-! ## What a turn leaves of the live copies -/

theorem Underway.not_active_of_leaves {t : Topology} {m : MemberId} {prepared : Prepared}
    {r : Replica} (h : Underway settings t ⟨m, .leavePartition p⟩ prepared)
    (hr : t.replica? m p = some r) : r.status ≠ .active := by
  rcases h with ⟨t₀, hready, hmembers⟩
  rw [Topology.replica?_congr hmembers, hready.replica?_inProgress] at hr
  have hmarked : (t₀.replica? m p).map (fun r => { r with status := .leaving }) = some r := by
    simpa [Operation.marks] using hr
  rcases Option.map_eq_some_iff.1 hmarked with ⟨r₀, -, rfl⟩
  simp

theorem Turn.hosted (turn : Turn good settings s s') (h : 0 < s.stored.replicaCount p) :
    0 < s'.stored.replicaCount p := by
  cases turn with
  | kept members => rwa [Topology.replicaCount_of_members members]
  | marked busy unwritten sane ready next stored =>
      rw [stored]
      exact h.trans_le (ready.replicaCount_inProgress p)
  | confirmed sane underway members =>
      rw [Topology.replicaCount_of_members members]
      exact underway.ready.hosted_confirmed h

/-- The only turn that takes the last active replica of a partition is the one by which the driver
marks its departure.  All the other replicas, which are enough for the floor, are stranded. -/
theorem Turn.takes_last (turn : Turn good settings s s') (served : s.stored.Served p)
    (lost : ¬ s'.stored.Served p) :
    ∃ c m, s.busy .driver = some c ∧ c.written = false ∧
      s.stored.next? = some ⟨m, .leavePartition p⟩ ∧
      s'.stored = (Update.replicaLeaving p).apply m s.stored ∧
      settings.floor < s.stored.replicaCount p ∧
      ∀ id, id ≠ m → (s.stored.replica? id p).isSome → s.stored.Stranded id p := by
  cases turn with
  | kept members => exact absurd (served.congr members.symm) lost
  | @marked c op prepared busy unwritten sane ready next stored =>
      rw [stored] at lost
      rcases ready.served_inProgress served with hserved | ⟨m, rfl, hupdate, hfloor, hothers⟩
      · exact absurd hserved lost
      · refine ⟨c, m, busy, unwritten, next, by rw [stored, hupdate], hfloor, ?_⟩
        intro id hid hhosts
        rcases Option.isSome_iff_exists.1 hhosts with ⟨r, hr⟩
        -- The next operation is the departure of `m`, so it is not about this replica.
        refine ⟨⟨r, hr, hothers id r hr hid⟩, ?_⟩
        rintro op hop ⟨hmember, -⟩
        have hsame : (⟨m, .leavePartition p⟩ : Operation) = op := by simpa [next] using hop
        rw [← hsame] at hmember
        exact hid hmember.symm
  | @confirmed op prepared sane underway members =>
      refine absurd (Topology.Served.congr ?_ members.symm) lost
      refine underway.ready.served_confirmed served ?_
      rintro m r rfl hr
      exact underway.not_active_of_leaves hr

/-- Only a write of the driver takes an active replica. -/
theorem Sound.wrote_of_lost {duties : Party → Task → Prop}
    (discipline : Disciplined duties good settings) (h : Sound duties good settings s)
    (step : Step duties s e s') (served : s.stored.Served p) (lost : ¬ s'.stored.Served p) :
    e = .wrote .driver (.advance settings) s.stored s'.stored := by
  rcases step.stored_eq_or_wrote with hstored | ⟨i, task, rfl⟩
  · rw [hstored] at lost
    exact absurd served lost
  · cases i with
    | driver =>
        have hduty := (h.keeping.wrote step).2.2.1
        rw [discipline.driver task hduty]
    | coordinator n =>
        have hmembers := h.members_of_coordinator step rfl
        exact absurd (served.congr hmembers.symm) lost

/-! ## Live copies in every run -/

/-- Coordinators handle management requests, other than those that drop members by force, and the
driver carries out the changes. -/
def managed (settings : Settings) : Party → Task → Prop
  | .driver, .advance own => own = settings
  | .coordinator _, .manage _ request => ∀ members, request ≠ .forceOverwrite members
  | _, _ => False

theorem disciplined_managed (settings : Settings) :
    Disciplined (managed settings) (fun _ => True) settings := by
  refine ⟨?_, ?_⟩
  · intro task duty
    cases task with
    | advance own => exact congrArg Task.advance duty
    | _ => exact duty.elim
  · intro n task now duty
    cases task with
    | manage own request => exact (Request.revises_handle own now duty).map _
    | _ => exact duty.elim

/-- Whether the driver is in the middle of an operation, or else no replica is stranded. -/
def Scene.Tidy (s : Scene) : Prop :=
  (∃ c, s.busy .driver = some c ∧ c.written = true) ∨ ∀ id p, ¬ s.stored.Stranded id p

def Scene.tidy (s : Scene) : Bool := (s.busy .driver).any (·.written) || s.stored.unstranded

theorem Scene.tidy_sound (h : s.tidy) : s.Tidy := by
  rcases Bool.or_eq_true_iff.1 h with hbusy | htest
  · exact Or.inl ((Option.any_eq_true _ _).1 hbusy)
  · exact Or.inr (Topology.not_stranded_of_unstranded htest)

/-- In a tidy scene the next step leaves every partition that is served an active replica. -/
theorem Turn.served_of_tidy (turn : Turn good settings s s') (tidy : s.Tidy)
    (served : s.stored.Served p) : s'.stored.Served p := by
  by_contra hlost
  rcases turn.takes_last served hlost with ⟨c, m, hbusy, hunwritten, -, -, hfloor, hstranded⟩
  -- The floor is at least one, so there is another replica, and it is stranded.
  have hpos := settings.floor_pos
  rw [Topology.replicaCount_eq_card_hosts] at hfloor
  have hmany : 1 < (s.stored.hosts p).card := by omega
  rcases Finset.exists_mem_ne hmany m with ⟨id, hid, hother⟩
  rcases tidy with ⟨c', hbusy', hwritten⟩ | hnone
  · -- The driver marks before it has written anything.
    have hsame : c = c' := by simpa [hbusy] using hbusy'
    rw [hsame, hwritten] at hunwritten
    cases hunwritten
  · exact hnone id p (hstranded id hother (Topology.mem_hosts_iff.1 hid))

theorem served_of_tidy_run {t₀ : Topology} (idle : t₀.pending = none) (served : t₀.Served p)
    (run : Run (fun s e s' => s.Tidy ∧ Step (managed settings) s e s') (.start t₀) events s) :
    s.stored.Served p := by
  induction run with
  | refl => exact served
  | tail run last ih =>
      have hsound := sound_run (disciplined_managed settings) idle (run.mono fun _ _ _ h => h.2)
      have hturn := (hsound.step (disciplined_managed settings) last.2).2
      exact hturn.served_of_tidy last.1 ih

/-- Management requests and one driver work on a topology that has been bootstrapped.  Whatever the
order of their steps and wherever they fail,

* every partition keeps a replica, of some status;
* a step that takes the last active replica of a partition is the one by which the driver marks its
  departure, while all the other replicas, which are enough for the floor, are stranded;
* so every partition has an active replica if no replica is ever stranded but while the driver is
  in the middle of an operation. -/
theorem live_copies {settings : Settings} {members : List MemberId}
    {partitionCount replicationFactor : Nat} {t₀ : Topology}
    (boot : Topology.bootstrap members partitionCount replicationFactor = .ok t₀)
    (run : Run (Step (managed settings)) (.start t₀) events s) :
    (∀ p ∈ t₀.partitions, 0 < s.stored.replicaCount p) ∧
    (∀ e s' p, Step (managed settings) s e s' → s.stored.Served p → ¬ s'.stored.Served p →
      e = .wrote .driver (.advance settings) s.stored s'.stored ∧
      ∃ m, s.stored.next? = some ⟨m, .leavePartition p⟩ ∧
        s'.stored = (Update.replicaLeaving p).apply m s.stored ∧
        max settings.replicationFactor 1 < s.stored.replicaCount p ∧
        ∀ id, id ≠ m → (s.stored.replica? id p).isSome → s.stored.Stranded id p) ∧
    (Run (fun s e s' => s.Tidy ∧ Step (managed settings) s e s') (.start t₀) events s →
      ∀ p ∈ t₀.partitions, s.stored.Served p) := by
  rcases Topology.allActive_of_bootstrap boot with ⟨hactive, hidle⟩
  have discipline := disciplined_managed settings
  have hsound := sound_run discipline hidle run
  refine ⟨?_, ?_, ?_⟩
  · -- Replicas of any status count here, so every turn leaves one.
    intro p hp
    have hhosted := Topology.mem_partitions_iff_replicaCount_pos.1 hp
    exact holds_of_turns (p := fun t => 0 < t.replicaCount p) discipline hidle hhosted
      (fun _ _ hturn h => hturn.hosted h) run
  · intro e s' p step served lost
    rcases (hsound.step discipline step).2.takes_last served lost with
      ⟨-, m, -, -, hnext, hstored, hfloor, hstranded⟩
    exact ⟨hsound.wrote_of_lost discipline step served lost, m, hnext, hstored, hfloor, hstranded⟩
  · intro tidyRun p hp
    exact served_of_tidy_run hidle (hactive.served hp) tidyRun

/-- A member joins a partition, and once it serves the other one departs. -/
def handover : List Choice :=
  let ask (request : Request) : Choice := .begin (.coordinator 0) (.manage {} request) 0
  let go : Choice := .go (.coordinator 0)
  [ask (.joinPartition "2" 1 1 false), go, go, go, .begin .driver (.advance {}) 0, .go .driver,
    .go .driver, .go .driver, .go .driver, .go .driver, ask (.leavePartition "1" 1 false), go, go,
    go, .begin .driver (.advance {}) 0, .go .driver, .go .driver]

theorem live_copies_handover :
    ∃ t₀ events s, Topology.bootstrap ["1", "2"] 1 1 = .ok t₀ ∧
      (Scene.start t₀).followWhile Scene.tidy handover = some (events, s) ∧
      ¬ s.stored.AllActive ∧ s.stored.Served 1 := by
  have hviews : ((Topology.bootstrap ["1", "2"] 1 1).toOption.bind fun t =>
      ((Scene.start t).followWhile Scene.tidy handover).map fun r =>
        (t.partitions, r.2.stored.replica? "1" 1)) = some ([1], some ⟨.leaving, 1⟩) := by
    decide +kernel
  have hpermitted : ∀ choice ∈ handover, choice.Permitted (managed {}) := by
    simp [handover, Choice.Permitted, managed]
  rcases hboot : Topology.bootstrap ["1", "2"] 1 1 with f | t₀
  · simp [hboot, Except.toOption] at hviews
  · rcases hfollow : (Scene.start t₀).followWhile Scene.tidy handover with _ | ⟨events, s⟩
    · simp [hboot, hfollow, Except.toOption] at hviews
    · have hend : t₀.partitions = [1] ∧ s.stored.replica? "1" 1 = some ⟨.leaving, 1⟩ := by
        simpa [hboot, hfollow, Except.toOption] using hviews
      have htidy := run_of_followWhile (p := Scene.Tidy) (fun _ => Scene.tidy_sound) hpermitted
        hfollow
      have hlive := (live_copies hboot (htidy.mono fun _ _ _ h => h.2)).2.2 htidy
      refine ⟨t₀, events, s, rfl, hfollow, ?_, hlive 1 (by simp [hend.1])⟩
      intro hactive
      have hleaving := hactive.replicas _ _ _ hend.2
      cases hleaving

/-! ## A run without a live copy -/

/-- A member fails to join a partition and its change is cancelled, which leaves its replica
stranded.  Then the other member departs. -/
def stripping : List Choice :=
  let ask (request : Request) : Choice := .begin (.coordinator 0) (.manage {} request) 0
  let go : Choice := .go (.coordinator 0)
  [ask (.joinPartition "2" 1 1 false), go, go, go, .begin .driver (.advance {}) 0, .go .driver,
    .go .driver, .stop .driver, ask (.cancel 1), go, go, ask (.leavePartition "1" 1 false), go, go,
    go, .begin .driver (.advance {}) 0, .go .driver, .go .driver]

/-- Not every run keeps every partition served. -/
theorem exists_run_without_live_copy :
    ¬ ∀ (settings : Settings) (members : List MemberId) (partitionCount replicationFactor : Nat)
        (t₀ : Topology),
        Topology.bootstrap members partitionCount replicationFactor = .ok t₀ →
        ∀ events s, Run (Step (managed settings)) (.start t₀) events s →
          ∀ p ∈ t₀.partitions, s.stored.Served p := by
  intro hserved
  have hviews : ((Topology.bootstrap ["1", "2"] 1 1).toOption.bind fun t =>
      ((Scene.start t).follow stripping).map fun r =>
        (t.partitions, decide (r.2.stored.Served 1))) = some ([1], false) := by
    decide +kernel
  have hpermitted : ∀ choice ∈ stripping, choice.Permitted (managed {}) := by
    simp [stripping, Choice.Permitted, managed]
  rcases hboot : Topology.bootstrap ["1", "2"] 1 1 with f | t₀
  · simp [hboot, Except.toOption] at hviews
  · rcases hfollow : (Scene.start t₀).follow stripping with _ | ⟨events, s⟩
    · simp [hboot, hfollow, Except.toOption] at hviews
    · have hend : t₀.partitions = [1] ∧ ¬ s.stored.Served 1 := by
        simpa [hboot, hfollow, Except.toOption] using hviews
      exact hend.2 (hserved {} _ _ _ t₀ hboot events s (run_of_follow hpermitted hfollow) 1
        (by simp [hend.1]))

end Interleaving

end ReplicaCluster
