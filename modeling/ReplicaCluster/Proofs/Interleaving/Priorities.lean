import ReplicaCluster.Proofs.Interleaving.Driver
import ReplicaCluster.Proofs.Interleaving.Invariants
import ReplicaCluster.Proofs.Management.Handler
import ReplicaCluster.Proofs.Planning.Priorities
import ReplicaCluster.Proofs.Topology.Bootstrap

/-!
# Priorities in every run

Priorities enter the store from many sources: placements, plans, overwritings, and the requests of
clients.  All but the last never give one below 1, and all that is read was written by one of them.
So a partition has no replica of priority 0 unless a client has asked for one
(`priorities_stay_positive`).  Whoever asks for one gets it: nothing checks the priority of a request
to join a partition (`exists_run_with_priority_zero`).
-/

namespace ReplicaCluster

variable {p : PartitionId} {t t' : Topology}

/-! ## What each task keeps -/

theorem Topology.Positive.admits (h : t.Positive p) (admits : t.Admits (Operation.Positive p) t') :
    t'.Positive p := by
  refine ⟨?_, admits.forall_pending⟩
  intro id r hr
  rw [replica?_congr (Interleaving.members_eq_of_admits admits)] at hr
  exact h.replicas id r hr

theorem Topology.Positive.proceeds {u : Update} {member : MemberId} (h : t.Positive p)
    (proceeds : t.Proceeds t') (members : t'.members = (u.apply member t).members)
    (granted : ∀ priority, u.Grants p priority → 1 ≤ priority) : t'.Positive p := by
  refine ⟨?_, proceeds.forall_pending h.pending⟩
  intro id r hr
  rw [replica?_congr members] at hr
  exact h.replicas_apply granted id r hr

namespace Coordinator

theorem keeps_request (settings : Settings) (now : Int) {dryRun : Bool} {planner : Planner}
    (positive : dryRun = false → planner.Positive p) :
    (request settings now dryRun planner).Keeps (Topology.Positive p) := by
  intro t ht
  cases hpropose : propose settings now planner t with
  | error e => simp [hpropose, Process.Keeps]
  | ok proposal =>
      cases proposal with
      | none => simp [hpropose, Process.Keeps]
      | some proposal =>
          cases dryRun with
          | true => simp [hpropose, Process.Keeps]
          | false =>
              simp only [hpropose, Bool.false_eq_true, if_false, Process.Keeps, and_true]
              intro stored t' hstored hcommit
              rcases begins_of_commit hpropose hcommit with ⟨rfl, hplan, hbegins⟩
              have hgood := positive rfl stored _ ht hplan
              exact hstored.admits (Or.inl (hbegins.mono hgood))

theorem keeps_cancel (now : Int) (change : Nat) :
    (cancel now change).Keeps (Topology.Positive p) := by
  intro t t' ht hcancel
  have hcancels : t.Cancels t' := (revises_cancel now change).1 t t' hcancel
  exact ⟨ht.admits (Or.inr hcancels), trivial⟩

theorem keeps_recover (settings : Settings) (now : Int) (members : List MemberId) :
    (recover settings now members).Keeps (Topology.Positive p) := by
  intro t ht
  cases hpropose : proposeRecovery settings now members t with
  | error e => simp [hpropose, Process.Keeps]
  | ok proposal =>
      simp only [hpropose, Process.Keeps, and_true]
      intro stored t' _ hstore
      -- Whatever is stored by now is replaced, by what was planned on the topology that was read.
      have ht' : proposal.started = t' := Except.ok.inj hstore
      subst ht'
      rcases proposeRecovery_eq_ok hpropose with ⟨hpending, recovery, hplan, -, hstarted⟩
      have hreduced : recovery.topology.Positive p := by
        refine ⟨?_, ?_⟩
        · intro id r hr
          rw [Recovery.replica?_plan hplan] at hr
          split at hr
          · simp at hr
          · exact ht.replicas id r hr
        · intro c hc
          simp [(Recovery.pending_plan hplan).1, hpending] at hc
      rcases hstarted with ⟨-, hsame⟩ | hbegins
      · rwa [hsame]
      · have hgood := Recovery.positive_of_mem_operations (p := p) hplan
        exact hreduced.admits (Or.inl (hbegins.mono hgood))

end Coordinator

namespace Request

variable {settings : Settings} {now : Int} {request : Request} {process : Process Response}

/-- The priority that a client names is the only one that is not known to be positive. -/
theorem positive_planner {intent : Intent} (asked : ∀ m, request ≠ .joinPartition m p 0 false)
    (hintent : request.intent? settings = some intent) (real : request.isDryRun = false) :
    intent.planner.Positive p := by
  cases request with
  | addMembers members dryRun =>
      cases hintent
      exact Planner.positive_addMembers members _
  | removeMembers members dryRun =>
      cases hintent
      exact Planner.positive_removeMembers members _
  | joinPartition member q priority dryRun =>
      cases hintent
      cases real
      rintro t operations - hplan op hop
      cases hplan
      rw [List.mem_singleton.1 hop]
      refine Operation.positive_joinPartition ?_
      rintro rfl
      refine Nat.one_le_iff_ne_zero.2 ?_
      rintro rfl
      exact asked member rfl
  | leavePartition member q dryRun =>
      cases hintent
      rintro t operations - hplan op hop
      cases hplan
      rw [List.mem_singleton.1 hop]
      exact Operation.positive_of_grants_none fun _ hgrants => hgrants
  | reassign members dryRun =>
      cases hintent
      exact Planner.positive_reassign members _
  | scale members dryRun =>
      cases hintent
      exact Planner.positive_scale members _
  | _ => cases hintent

theorem Handled.keeps (h : request.Handled settings now process)
    (asked : ∀ m, request ≠ .joinPartition m p 0 false) :
    process.Keeps (Topology.Positive p) := by
  cases h with
  | refused silent => trivial
  | change intent hintent reaches =>
      refine (Coordinator.keeps_request settings now ?_).map _
      exact positive_planner asked hintent
  | cancel id => exact (Coordinator.keeps_cancel now id).map _
  | recover members reaches => exact (Coordinator.keeps_recover settings now members).map _
  | topology => exact fun t ht => trivial

end Request

theorem Execution.keeps_advance (settings : Settings) (now : Int) :
    (advance settings now).Keeps (Topology.Positive p) := by
  intro t ht
  cases hpending : t.pending with
  | none => simp [hpending, Process.Keeps]
  | some c =>
      cases hnext : t.next? with
      | none => simp [hpending, hnext, Process.Keeps]
      | some op =>
          cases hprepare : op.prepare settings t with
          | error e => simp [hpending, hnext, hprepare, Process.Keeps]
          | ok prepared =>
              -- Neither write gives a priority that the operation does not name, and the operation
              -- is one that was stored.
              have hgrants : ∀ priority, prepared.inProgress.Grants p priority ∨
                  prepared.confirmed.Grants p priority → 1 ≤ priority := by
                intro priority hwrite
                rcases Topology.next?_eq_some_iff.1 hnext with ⟨c', rest, hc', hremaining⟩
                have hop : op.Positive p := ht.pending c' hc' op (by simp [hremaining])
                exact hop priority ((Operation.ready_of_prepare hprepare).grants hwrite)
              simp only [hpending, hnext, hprepare, Process.Keeps, and_true]
              intro stored t' hstored hstart
              rcases starting_eq_ok_iff.1 hstart with ⟨-, rfl⟩
              refine ⟨hstored.proceeds (Or.inl ⟨by simp, by simp⟩) rfl fun priority hmark =>
                hgrants priority (Or.inl hmark), ?_⟩
              intro later t'' hlater hfinish
              rcases finishing_eq_ok_iff.1 hfinish with
                ⟨c', rest, hpending', -, hremaining, rfl⟩ | ⟨-, rfl⟩
              · exact hlater.proceeds (proceeds_advanced hpending' hremaining now _)
                  (Topology.members_advanced ..) fun priority hconfirm =>
                    hgrants priority (Or.inr hconfirm)
              · exact hlater.proceeds (Or.inl ⟨by simp, by simp⟩) rfl fun priority hconfirm =>
                  hgrants priority (Or.inr hconfirm)

namespace Interleaving

/-! ## Positive priorities in every run -/

/-- Coordinators handle management requests of any kind, and the driver carries out the changes. -/
def administered : Party → Task → Prop
  | .driver, .advance _ => True
  | .coordinator _, .manage _ _ => True
  | _, _ => False

/-- As `administered`, but nobody is asked for a replica of the partition with priority 0. -/
def modest (p : PartitionId) (i : Party) (task : Task) : Prop :=
  administered i task ∧ ∀ own member, task ≠ .manage own (.joinPartition member p 0 false)

theorem keeps_of_modest {i : Party} {task : Task} (now : Int) (duty : modest p i task) :
    (task.process now).Keeps (Topology.Positive p) := by
  rcases duty with ⟨hduty, hasked⟩
  cases task with
  | advance settings => exact (Execution.keeps_advance settings now).map _
  | manage settings request =>
      refine ((request.handled settings now).keeps ?_).map _
      rintro member rfl
      exact hasked settings member rfl
  | _ => cases i <;> exact hduty.elim

theorem positive_of_bootstrap {members : List MemberId} {partitionCount replicationFactor : Nat}
    (boot : Topology.bootstrap members partitionCount replicationFactor = .ok t) :
    t.Positive p := by
  refine ⟨?_, ?_⟩
  · intro id r hr
    rw [Topology.replica?_of_bootstrap boot] at hr
    split at hr
    · rcases Option.map_eq_some_iff.1 hr with ⟨priority, hpriority, rfl⟩
      exact Placement.positive_roundRobin _ _ _ p id priority hpriority
    · simp at hr
  · intro c hc
    simp [(Topology.allActive_of_bootstrap boot).2] at hc

/-- Any number of coordinators handle requests of any kind, beside a driver, on a topology that has
been bootstrapped.  Whatever the order of their steps and wherever they fail, a partition has no
replica with a priority below 1, unless a client has asked for one: by a request to join that very
partition with priority 0, which is not a dry run. -/
theorem priorities_stay_positive {members : List MemberId} {partitionCount replicationFactor : Nat}
    {t₀ : Topology} (boot : Topology.bootstrap members partitionCount replicationFactor = .ok t₀)
    {events : List Event} {s : Scene} (run : Run (Step administered) (.start t₀) events s)
    (asked : ∀ i own member, .began i (.manage own (.joinPartition member p 0 false)) ∉ events) :
    ∀ id r, s.stored.replica? id p = some r → 1 ≤ r.priority := by
  have hmodest : Run (Step (modest p)) (.start t₀) events s := by
    refine run_restrict run fun i task hmem => ⟨duty_of_began run hmem, ?_⟩
    rintro own member rfl
    exact asked i own member hmem
  have hpositive : s.stored.Positive p :=
    holds_of_keeps (fun i task now duty => keeps_of_modest now duty) (positive_of_bootstrap boot)
      hmodest
  exact hpositive.replicas

/-- A member joins a partition with priority 0, and the driver marks that. -/
def lowJoin : List Choice :=
  let go : Choice := .go (.coordinator 0)
  [.begin (.coordinator 0) (.manage {} (.joinPartition "2" 1 0 false)) 0, go, go, go,
    .begin .driver (.advance {}) 0, .go .driver, .go .driver]

/-- Nothing is asked of the other partition, and its priorities stay. -/
theorem priorities_stay_positive_lowJoin :
    ∃ t₀ events s, Topology.bootstrap ["1", "2"] 2 1 = .ok t₀ ∧
      (Scene.start t₀).follow lowJoin = some (events, s) ∧
      (∀ i own member, .began i (.manage own (.joinPartition member 2 0 false)) ∉ events) ∧
      s.stored.replica? "2" 1 = some ⟨.joining, 0⟩ ∧
      ∃ r, s.stored.replica? "2" 2 = some r ∧ 1 ≤ r.priority := by
  have hviews : ((Topology.bootstrap ["1", "2"] 2 1).toOption.bind fun t =>
      ((Scene.start t).follow lowJoin).map fun r =>
        (r.2.stored.replica? "2" 1, r.2.stored.replica? "2" 2)) =
      some (some ⟨.joining, 0⟩, some ⟨.active, 1⟩) := by
    decide +kernel
  have hpermitted : ∀ choice ∈ lowJoin, choice.Permitted (modest 2) := by
    simp [lowJoin, Choice.Permitted, modest, administered]
  rcases hboot : Topology.bootstrap ["1", "2"] 2 1 with f | t₀
  · simp [hboot, Except.toOption] at hviews
  · rcases hfollow : (Scene.start t₀).follow lowJoin with _ | ⟨events, s⟩
    · simp [hboot, hfollow, Except.toOption] at hviews
    · have hend : s.stored.replica? "2" 1 = some ⟨.joining, 0⟩ ∧
          s.stored.replica? "2" 2 = some ⟨.active, 1⟩ := by
        simpa [hboot, hfollow, Except.toOption] using hviews
      have hrun := run_of_follow hpermitted hfollow
      have hasked : ∀ i own member,
          .began i (.manage own (.joinPartition member 2 0 false)) ∉ events :=
        fun i own member hmem => (duty_of_began hrun hmem).2 own member rfl
      have hadministered : Run (Step administered) (.start t₀) events s :=
        run_restrict hrun fun i task hmem => (duty_of_began hrun hmem).1
      exact ⟨t₀, events, s, rfl, hfollow, hasked, hend.1, _, hend.2,
        priorities_stay_positive hboot hadministered hasked "2" _ hend.2⟩

/-- Not every run keeps every priority at 1 or above. -/
theorem exists_run_with_priority_zero :
    ¬ ∀ (members : List MemberId) (partitionCount replicationFactor : Nat) (t₀ : Topology),
        Topology.bootstrap members partitionCount replicationFactor = .ok t₀ →
        ∀ events s, Run (Step administered) (.start t₀) events s →
          ∀ id p r, s.stored.replica? id p = some r → 1 ≤ r.priority := by
  intro hpositive
  have hviews : ((Topology.bootstrap ["1", "2"] 2 1).toOption.bind fun t =>
      ((Scene.start t).follow lowJoin).map fun r => r.2.stored.replica? "2" 1) =
      some (some ⟨.joining, 0⟩) := by
    decide +kernel
  have hpermitted : ∀ choice ∈ lowJoin, choice.Permitted administered := by
    simp [lowJoin, Choice.Permitted, administered]
  rcases hboot : Topology.bootstrap ["1", "2"] 2 1 with f | t₀
  · simp [hboot, Except.toOption] at hviews
  · rcases hfollow : (Scene.start t₀).follow lowJoin with _ | ⟨events, s⟩
    · simp [hboot, hfollow, Except.toOption] at hviews
    · have hend : s.stored.replica? "2" 1 = some ⟨.joining, 0⟩ := by
        simpa [hboot, hfollow, Except.toOption] using hviews
      have hone := hpositive _ _ _ t₀ hboot events s (run_of_follow hpermitted hfollow) "2" 1 _ hend
      exact absurd hone (by decide)

end Interleaving

end ReplicaCluster
