import ReplicaCluster.Proofs.Execution.Floor
import ReplicaCluster.Proofs.Interleaving.ForcedOverwrite

/-!
# Which partitions are lost

A force overwrite counts the partitions as lost of which it drops all hosts.  They are not the only
ones that may be lost when members are dropped by force.  A departure that the driver has marked is
confirmed even if its change is cancelled meanwhile, and if all other hosts are dropped in between,
the last one departs (`exists_run_with_unreported_loss`).

Losses that no force overwrite has counted all come from an operation of which the driver was in the
middle when a force overwrite read the topology (`partitions_stay_hosted`).
-/

namespace ReplicaCluster

namespace Interleaving

variable {calm : Prop} {s s' : Scene} {e : Event} {events : List Event} {t t₀ : Topology}
  {p : PartitionId}

/-! ## Losses -/

/-- The step stores a force overwrite that has counted the partition as lost, on the topology that it
had read. -/
def Reported (s : Scene) (e : Event) (s' : Scene) (p : PartitionId) : Prop :=
  ∃ i c members t recovery, s.busy i = some c ∧ c.task.Forces members ∧ c.seen = some t ∧
    e = .wrote i c.task s.stored s'.stored ∧ Recovery.plan members t = .ok recovery ∧
    p ∈ recovery.lost

/-- How a partition is lost without being counted. -/
inductive Overtaken (events : List Event) (s : Scene) (s' : Scene) (p : PartitionId) : Event → Prop
  /-- The driver confirms a departure that it has marked.  There were other hosts then, and they have
  all been dropped by force since. -/
  | departed {task : Task} {t₀ : Topology} {m : MemberId} {before between : List Event}
      (marked : events =
        before ++ .wrote .driver task t₀ ((Update.replicaLeaving p).apply m t₀) :: between)
      (others : ∃ id, id ≠ m ∧ (t₀.replica? id p).isSome)
      (dropped : ∀ id, id ≠ m → (t₀.replica? id p).isSome → Dropped between id)
      (confirmed : s'.stored.members = ((Update.replicaRemoved p).apply m s.stored).members) :
      Overtaken events s s' p (.wrote .driver task s.stored s'.stored)
  /-- The driver confirms an overwriting that it has marked.  The new hosts have all been dropped by
  force since. -/
  | overwritten {task : Task} {t₀ : Topology} {hosts : List MemberId} {before between : List Event}
      (marked : events = before ++ .wrote .driver task t₀ t₀ :: between) (nonempty : hosts ≠ [])
      (dropped : ∀ id ∈ hosts, Dropped between id)
      (confirmed : s'.stored.members =
        (s.stored.overwriteReplicas p (Priorities.descending hosts)).members) :
      Overtaken events s s' p (.wrote .driver task s.stored s'.stored)
  /-- A force overwrite is stored over an overwriting that was confirmed since it has read the
  topology, and that has given the partition its first hosts. -/
  | forgotten {i : Party} {c : Session} {members hosts : List MemberId} {t : Topology}
      (busy : s.busy i = some c) (forces : c.task.Forces members) (seen : c.seen = some t)
      (absent : p ∉ t.partitions)
      (since : s.stored.members = (t.overwriteReplicas p (Priorities.descending hosts)).members) :
      Overtaken events s s' p (.wrote i c.task s.stored s'.stored)

theorem replica?_eq_none_of_lost (lost : p ∉ t.partitions) (id : MemberId) :
    t.replica? id p = none := by
  by_contra hsome
  exact lost (Topology.mem_partitions_iff.2 ⟨id, Option.isSome_iff_ne_none.2 hsome⟩)

/-- The other hosts of a partition whose departure has been marked: the floor is at least one. -/
theorem exists_other_host {settings : Settings} {m : MemberId} {prepared : Prepared}
    (ready : Ready settings t ⟨m, .leavePartition p⟩ prepared) :
    ∃ id, id ≠ m ∧ (t.replica? id p).isSome := by
  cases ready with
  | leavePartition active hosted kept =>
      have hpos := settings.floor_pos
      rw [Topology.replicaCount_eq_card_hosts] at kept
      have hmany : 1 < (t.hosts p).card := by omega
      rcases Finset.exists_mem_ne hmany m with ⟨id, hid, hother⟩
      exact ⟨id, hother, Topology.mem_hosts_iff.1 hid⟩

/-- What the members host is what they hosted when the operation was marked. -/
theorem replica?_of_marked {settings : Settings} {op : Operation} {prepared : Prepared}
    {between : List Event} {id : MemberId} (ready : Ready settings t₀ op prepared)
    (members : t.member? id = (prepared.inProgress.apply op.member t₀).member? id ∨
      (¬ calm ∧ t.member? id = none ∧ Dropped between id)) (p : PartitionId) :
    t.replica? id p = op.marks id p (t₀.replica? id p) ∨
      (¬ calm ∧ t.replica? id p = none ∧ Dropped between id) := by
  rcases members with hsame | ⟨hcalm, habsent, hdropped⟩
  · left
    rw [← ready.replica?_inProgress]
    simp only [Topology.replica?, hsame]
  · exact Or.inr ⟨hcalm, by simp [Topology.replica?, habsent], hdropped⟩

section Confirmed

variable {task : Task} {m : MemberId} {prepared : Prepared}

/-- A member that may leave the cluster hosts nothing. -/
theorem Afoot.replica?_of_leaveCluster
    (afoot : Afoot calm events t task ⟨m, .leaveCluster⟩ prepared) : t.replica? m p = none := by
  rcases afoot with ⟨settings, t₀, before, between, hready, -, hmembers⟩
  rcases replica?_of_marked hready (hmembers m) p with hsame | ⟨-, hnone, -⟩
  · cases hready with
    | leaveCluster known settled empty => simp [hsame, Operation.marks, empty]
  · exact hnone

theorem Afoot.departed (afoot : Afoot calm events s.stored task ⟨m, .leavePartition p⟩ prepared)
    (gone : ∀ id, (prepared.confirmed.apply m s.stored).replica? id p = none)
    (confirmed : s'.stored.members = (prepared.confirmed.apply m s.stored).members) :
    ¬ calm ∧ Overtaken events s s' p (.wrote .driver task s.stored s'.stored) := by
  rcases afoot with ⟨settings, t₀, before, between, hready, hevents, hmembers⟩
  -- Whoever else were still a host would stay one.
  have hdropped : ∀ id, id ≠ m → (t₀.replica? id p).isSome → ¬ calm ∧ Dropped between id := by
    intro id hid hhosts
    rcases replica?_of_marked hready (hmembers id) p with hsame | ⟨hcalm, -, hdropped⟩
    · have hkept : s.stored.replica? id p = t₀.replica? id p := by
        simpa [Operation.marks, hid.symm] using hsame
      rw [← hkept] at hhosts
      rcases Update.isSome_apply (u := prepared.confirmed) (m := m) hhosts with
        hstays | ⟨hmember, -⟩ | ⟨priorities, hoverwrites⟩
      · simp [gone] at hstays
      · exact absurd hmember hid
      · cases hready
        cases hoverwrites
    · exact ⟨hcalm, hdropped⟩
  rcases exists_other_host hready with ⟨other, hother, hhosts⟩
  refine ⟨(hdropped other hother hhosts).1, ?_⟩
  cases hready
  exact .departed hevents ⟨other, hother, hhosts⟩ (fun id hid hhosts => (hdropped id hid hhosts).2)
    confirmed

theorem Afoot.overwritten {hosts : List MemberId}
    (afoot : Afoot calm events s.stored task ⟨m, .overwriteHosts p hosts⟩ prepared)
    (unknown : ∀ host ∈ hosts, s.stored.member? host = none)
    (confirmed : s'.stored.members = (prepared.confirmed.apply m s.stored).members) :
    ¬ calm ∧ Overtaken events s s' p (.wrote .driver task s.stored s'.stored) := by
  rcases afoot with ⟨settings, t₀, before, between, hready, hevents, hmembers⟩
  cases hready with
  | overwriteHosts coordinator nonempty nodup known =>
      have hdropped : ∀ id ∈ hosts, ¬ calm ∧ Dropped between id := by
        intro id hid
        rcases hmembers id with hsame | ⟨hcalm, -, hdropped⟩
        · -- The new hosts were known when the operation was marked, which changes nothing.
          rcases known id hid with ⟨status, hstatus, -⟩
          have habsent : t₀.member? id = none := hsame.symm.trans (unknown id hid)
          simp [Topology.status?, habsent] at hstatus
        · exact ⟨hcalm, hdropped⟩
      rcases List.exists_mem_of_ne_nil hosts nonempty with ⟨first, hfirst⟩
      exact ⟨(hdropped first hfirst).1,
        .overwritten hevents nonempty (fun id hid => (hdropped id hid).2) confirmed⟩

end Confirmed

/-- The driver takes the last host of a partition only where all the others have been dropped since
it has marked the operation. -/
theorem Drives.loss (drives : Drives calm events s e s') (hosted : p ∈ s.stored.partitions)
    (lost : p ∉ s'.stored.partitions) : ¬ calm ∧ Overtaken events s s' p e := by
  have hnone := replica?_eq_none_of_lost lost
  rcases Topology.mem_partitions_iff.1 hosted with ⟨host, hhost⟩
  cases drives with
  | kept stored midway =>
      rw [stored] at lost
      exact absurd hosted lost
  | marked ready next stored =>
      have hkept := ready.isSome_inProgress_apply hhost
      rw [← stored, hnone] at hkept
      cases hkept
  | @confirmed task now id op prepared afoot midway rested finished event =>
      have hconfirmed :
          s'.stored.members = (prepared.confirmed.apply op.member s.stored).members := by
        rcases Execution.finishing_eq_ok_iff.1 finished with
          ⟨c, rest, -, -, -, hstored⟩ | ⟨-, hstored⟩
        · rw [hstored, Topology.members_advanced]
        · rw [hstored]
      have hgone : ∀ id, (prepared.confirmed.apply op.member s.stored).replica? id p = none := by
        intro id
        rw [← Topology.replica?_congr hconfirmed, hnone]
      rw [event]
      rcases afoot.ready with ⟨settings, t₀, hready⟩
      rcases hready.cases_of_lost hhost hgone with rfl | rfl | ⟨m, hosts, rfl, hunknown⟩
      · simp [afoot.replica?_of_leaveCluster] at hhost
      · exact afoot.departed hgone hconfirmed
      · exact afoot.overwritten hunknown hconfirmed

/-- The coordinator takes the last host of a partition only by a force overwrite, which has counted
that unless it could not know of the partition. -/
theorem Oversees.loss (oversees : Oversees calm s e s') (hosted : p ∈ s.stored.partitions)
    (lost : p ∉ s'.stored.partitions) :
    Reported s e s' p ∨ (¬ calm ∧ Overtaken events s s' p e) := by
  have hnone := replica?_eq_none_of_lost lost
  rcases Topology.mem_partitions_iff.1 hosted with ⟨host, hhost⟩
  cases oversees with
  | kept stored =>
      rw [stored] at lost
      exact absurd hosted lost
  | booked admits =>
      rw [← Topology.replica?_congr (members_eq_of_admits admits), hnone] at hhost
      cases hhost
  | @forced i c members settings now t proposal busy forces seen plan awaited stored event =>
      rcases exists_recovery plan with ⟨recovery, hplan, hstarted⟩
      by_cases hknown : p ∈ t.partitions
      · left
        refine ⟨i, c, members, t, recovery, busy, forces, seen, event, hplan, ?_⟩
        refine (Recovery.mem_lost_iff hplan).2 ⟨hknown, ?_⟩
        -- A host that is not dropped would be stored again.
        intro id hid
        by_contra hstays
        have hgone := hnone id
        rw [stored, Topology.replica?_congr hstarted, Recovery.replica?_plan hplan,
          if_neg hstays] at hgone
        simp [hgone] at hid
      · right
        have habsent := replica?_eq_none_of_lost hknown
        rcases awaited.members with ⟨hmembers, -⟩ |
          ⟨hcalm, -, own, t₀, op, prepared, hready, hmembers⟩
        · rw [Topology.replica?_congr hmembers, habsent] at hhost
          cases hhost
        · -- The partition was born by the confirmation that the force overwrite did not see.
          refine ⟨hcalm, ?_⟩
          rw [Topology.replica?_congr hmembers] at hhost
          rcases hready.overwrites_of_born habsent hhost with ⟨m, hosts, rfl⟩
          rw [event]
          cases hready
          exact .forgotten busy forces seen hknown hmembers

/-! ## Losses in every run -/

/-- One coordinator handles requests of any kind, force overwrites and cancels among them, beside a
driver.  Whatever the order of their steps and wherever they fail, a partition that is hosted stays
hosted by every step but

* one that stores a force overwrite which has counted the partition as lost;
* one that ends what the driver has begun before a force overwrite: it confirms a departure or an
  overwriting, of which all other hosts have been dropped since it was marked, or it stores a force
  overwrite that had read the topology before the partition was there.

The latter do not happen if no force overwrite reads the topology while the driver is between the two
writes of an operation. -/
theorem partitions_stay_hosted (run : Run (Step solitary) (.start t₀) events s)
    (step : Step solitary s e s') :
    (∀ p ∈ s.stored.partitions, p ∈ s'.stored.partitions ∨ Reported s e s' p ∨
      Overtaken events s s' p e) ∧
    (Run (fun s e s' => s.Patient e ∧ Step solitary s e s') (.start t₀) events s →
      ∀ p ∈ s.stored.partitions, p ∈ s'.stored.partitions ∨ Reported s e s' p) := by
  have hloss : ∀ calm, Steady calm events s → ∀ p ∈ s.stored.partitions,
      p ∉ s'.stored.partitions → Reported s e s' p ∨ (¬ calm ∧ Overtaken events s s' p e) := by
    intro calm hsteady p hosted lost
    rcases step.stored_eq_or_wrote with hstored | ⟨i, task, rfl⟩
    · rw [hstored] at lost
      exact absurd hosted lost
    · -- A write is no read, so it may come at any time.
      have hpatient : s.Patient (.wrote i task s.stored s'.stored) := by
        intro i' c members he
        cases he
      rcases (hsteady.step (fun _ => hpatient) step).2 with hdrives | hoversees
      · exact Or.inr (hdrives.loss hosted lost)
      · exact hoversees.loss hosted lost
  refine ⟨?_, ?_⟩
  · intro p hosted
    by_cases lost : p ∈ s'.stored.partitions
    · exact Or.inl lost
    · have hsteady : Steady False events s :=
        steady_run (run.mono fun _ _ _ h => ⟨False.elim, h⟩)
      rcases hloss False hsteady p hosted lost with hreported | ⟨-, hovertaken⟩
      · exact Or.inr (Or.inl hreported)
      · exact Or.inr (Or.inr hovertaken)
  · intro patient p hosted
    by_cases lost : p ∈ s'.stored.partitions
    · exact Or.inl lost
    · have hsteady : Steady True events s :=
        steady_run (patient.mono fun _ _ _ h => ⟨fun _ => h.1, h.2⟩)
      rcases hloss True hsteady p hosted lost with hreported | ⟨hrestless, -⟩
      · exact Or.inr hreported
      · exact absurd trivial hrestless

/-- A member that hosts one of two partitions alone is dropped by force. -/
def dropping : List Choice :=
  [.begin (.coordinator 0) (.manage {} (.forceOverwrite ["2"])) 0, .go (.coordinator 0)]

/-- The driver does nothing at all meanwhile, so the force overwrite has counted what is lost. -/
theorem partitions_stay_hosted_dropping :
    ∃ t₀ events s e s', Topology.bootstrap ["1", "2"] 2 1 = .ok t₀ ∧
      (Scene.start t₀).followWhile (fun s => !s.midway) dropping = some (events, s) ∧
      s.act (.go (.coordinator 0)) = some (e, s') ∧ 2 ∉ s'.stored.partitions ∧
      Reported s e s' 2 := by
  have hviews : ((Topology.bootstrap ["1", "2"] 2 1).toOption.bind fun t =>
      ((Scene.start t).followWhile (fun s => !s.midway) dropping).bind fun r =>
        (r.2.act (.go (.coordinator 0))).map fun r' =>
          (r.2.stored.partitions, r'.2.stored.partitions)) = some ([1, 2], [1]) := by
    decide +kernel
  have hpermitted : ∀ choice ∈ dropping, choice.Permitted solitary := by
    simp [dropping, Choice.Permitted, solitary]
  rcases hboot : Topology.bootstrap ["1", "2"] 2 1 with f | t₀
  · simp [hboot, Except.toOption] at hviews
  · rcases hfollow : (Scene.start t₀).followWhile (fun s => !s.midway) dropping with
      _ | ⟨events, s⟩
    · simp [hboot, hfollow, Except.toOption] at hviews
    · rcases hact : s.act (.go (.coordinator 0)) with _ | ⟨e, s'⟩
      · simp [hboot, hfollow, hact, Except.toOption] at hviews
      · have hend : s.stored.partitions = [1, 2] ∧ s'.stored.partitions = [1] := by
          simpa [hboot, hfollow, hact, Except.toOption] using hviews
        have hpatient :
            Run (fun s e s' => s.Patient e ∧ Step solitary s e s') (.start t₀) events s := by
          refine (run_of_followWhile (p := fun s => s.midway = false) (by simp) hpermitted
            hfollow).mono ?_
          exact fun _ _ _ h => ⟨fun _ _ _ _ _ _ => h.1, h.2⟩
        have hgo : (Choice.go (.coordinator 0)).Permitted solitary := trivial
        have hstays := (partitions_stay_hosted (hpatient.mono fun _ _ _ h => h.2)
          (step_of_act hgo hact)).2 hpatient 2 (by simp [hend.1])
        exact ⟨t₀, events, s, e, s', rfl, hfollow, hact, by simp [hend.2],
          hstays.resolve_left (by simp [hend.2])⟩

/-! ## A loss that is not counted -/

/-- The session has read a topology on which its force overwrite counts the partition as lost. -/
def Session.counts (p : PartitionId) (c : Session) : Bool :=
  match c.task, c.seen with
  | .manage _ (.forceOverwrite members), some t =>
      match Recovery.plan members t with
      | .ok recovery => p ∈ recovery.lost
      | .error _ => false
  | _, _ => false

/-- Who stores a force overwrite is the only coordinator. -/
theorem counts_of_reported (alone : ∀ i c, s.busy i = some c → solitary i c.task)
    (h : Reported s e s' p) : (s.busy (.coordinator 0)).any (Session.counts p) := by
  rcases h with ⟨i, c, members, t, recovery, hbusy, ⟨own, htask⟩, hseen, -, hplan, hlost⟩
  have hduty := alone i c hbusy
  rw [htask] at hduty
  cases i with
  | driver => exact hduty.elim
  | coordinator n =>
      have hn : n = 0 := hduty
      subst hn
      simp [hbusy, Session.counts, htask, hseen, hplan, hlost]

/-- A departure is cancelled while the driver is in the middle of it.  Then the only other host is
dropped by force, before the departure is confirmed. -/
def stranding : List Choice :=
  let ask (request : Request) : Choice := .begin (.coordinator 0) (.manage {} request) 0
  let go : Choice := .go (.coordinator 0)
  [ask (.leavePartition "1" 1 false), go, go, go, .begin .driver (.advance {}) 0, .go .driver,
    .go .driver, .go .driver, ask (.cancel 1), go, go, ask (.forceOverwrite ["2"]), go, go, go,
    .go .driver]

/-- Nothing fails in this run and no force overwrite counts the partition, and yet it is lost. -/
theorem exists_run_with_unreported_loss :
    ∃ t₀ events s, Topology.bootstrap ["1", "2"] 1 2 = .ok t₀ ∧
      (Scene.start t₀).follow stranding = some (events, s) ∧
      Run (fun s e s' => ¬ Reported s e s' 1 ∧ Step solitary s e s') (.start t₀) events s ∧
      1 ∈ t₀.partitions ∧ 1 ∉ s.stored.partitions := by
  let test (s : Scene) : Bool := !(s.busy (.coordinator 0)).any (Session.counts 1)
  have hviews : ((Topology.bootstrap ["1", "2"] 1 2).toOption.bind fun t =>
      ((Scene.start t).followWhile test stranding).map fun r =>
        (t.partitions, r.2.stored.partitions)) = some ([1], []) := by
    decide +kernel
  have hpermitted : ∀ choice ∈ stranding, choice.Permitted solitary := by
    simp [stranding, Choice.Permitted, solitary]
  rcases hboot : Topology.bootstrap ["1", "2"] 1 2 with f | t₀
  · simp [hboot, Except.toOption] at hviews
  · rcases hfollow : (Scene.start t₀).followWhile test stranding with _ | ⟨events, s⟩
    · simp [hboot, hfollow, Except.toOption] at hviews
    · have hend : t₀.partitions = [1] ∧ s.stored.partitions = [] := by
        simpa [hboot, hfollow, Except.toOption] using hviews
      have htested :
          Run (fun s e s' => test s = true ∧ Step solitary s e s') (.start t₀) events s :=
        run_of_followWhile (fun _ h => h) hpermitted hfollow
      have halone := htested.strengthen (p := fun s => ∀ i c, s.busy i = some c → solitary i c.task)
        (by simp) fun _ _ _ h step => step.2.forall_duty h
      refine ⟨t₀, events, s, rfl, follow_of_followWhile hfollow, ?_, by simp [hend.1],
        by simp [hend.2]⟩
      refine halone.mono fun s e s' h => ⟨?_, h.2.2⟩
      intro hreported
      have hcounts := counts_of_reported h.1 hreported
      have htest : test s = true := h.2.1
      simp [test, hcounts] at htest

end Interleaving

end ReplicaCluster
