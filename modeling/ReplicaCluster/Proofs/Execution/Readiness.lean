import ReplicaCluster.Execution.Prepared
import ReplicaCluster.Proofs.Topology.Hosting

/-!
# Readiness — which operations pass their check, and what comes of them

`Ready settings t op prepared` says, action by action, what a topology must grant for an
operation to run.  The check `Operation.prepare` succeeds exactly on ready operations, so that
laws about it are proved by cases on `Ready`.
-/

namespace ReplicaCluster

theorem bind_eq_ok_iff {ε α β : Type} {x : Except ε α} {f : α → Except ε β} {b : β} :
    (x >>= f) = .ok b ↔ ∃ a, x = .ok a ∧ f a = .ok b := by
  cases x <;> simp [bind, Except.bind]

theorem invariant_foldlM {σ α ε : Type} {f : σ → α → Except ε σ} {P : σ → Prop} (xs : List α)
    (step : ∀ s, ∀ a ∈ xs, ∀ s', P s → f s a = .ok s' → P s') :
    ∀ {s s' : σ}, P s → xs.foldlM f s = .ok s' → P s' := by
  induction xs with
  | nil =>
      intro s s' hs h
      cases h
      exact hs
  | cons a rest ih =>
      intro s s' hs h
      rw [List.foldlM_cons, bind_eq_ok_iff] at h
      rcases h with ⟨s₁, hfirst, hrest⟩
      have hlater : P s₁ := step s a List.mem_cons_self s₁ hs hfirst
      exact ih (fun s b hb => step s b (List.mem_cons_of_mem a hb)) hlater hrest

theorem cases_of_map_eq {ε α β : Type} {f : α → β} {x y : Except ε α} (h : x.map f = y.map f) :
    (∃ e, x = .error e ∧ y = .error e) ∨ ∃ a b, x = .ok a ∧ y = .ok b ∧ f a = f b := by
  cases x with
  | error e =>
      cases y with
      | error e' =>
          have he : e = e' := by simpa [Except.map] using h
          exact Or.inl ⟨e, rfl, by rw [he]⟩
      | ok b => simp [Except.map] at h
  | ok a =>
      cases y with
      | error e' => simp [Except.map] at h
      | ok b => exact Or.inr ⟨a, b, rfl, rfl, by simpa [Except.map] using h⟩

@[simp] theorem refuse_ne_ok {α : Type} {c : Cause} {a : α} :
    (refuse c : Except Failure α) ≠ .ok a := by
  simp [refuse]

/-- An operation that may run, with all that its execution needs. -/
inductive Ready (settings : Settings) (t : Topology) : Operation → Prepared → Prop
  | joinCluster {m : MemberId} (free : ∀ s, t.status? m = some s → s = .joining) :
      Ready settings t ⟨m, .joinCluster⟩ ⟨.memberJoining, .addMember m, .memberActive⟩
  | leaveCluster {m : MemberId} {s : Status} (known : t.status? m = some s)
      (settled : s ≠ .joining) (empty : ∀ p, t.replica? m p = none) :
      Ready settings t ⟨m, .leaveCluster⟩ ⟨.memberLeaving, .removeMember m, .memberRemoved⟩
  | joinPartition {m : MemberId} {p : PartitionId} {priority : Priority}
      (active : t.status? m = some .active)
      (filling : ∀ r, t.replica? m p = some r → r.status = .joining)
      (others : (t.priorities p).erase m ≠ ∅) :
      Ready settings t ⟨m, .joinPartition p priority⟩
        ⟨.replicaJoining p priority, .join m p (((t.priorities p).erase m).insert m priority),
          .replicaActive p⟩
  | leavePartition {m : MemberId} {p : PartitionId} (active : t.status? m = some .active)
      (hosted : (t.replica? m p).isSome) (kept : settings.floor ≤ t.replicaCount p - 1) :
      Ready settings t ⟨m, .leavePartition p⟩ ⟨.replicaLeaving p, .leave m p, .replicaRemoved p⟩
  | setPriority {m : MemberId} {p : PartitionId} {priority : Priority} {r : Replica}
      (active : t.status? m = some .active) (hosted : t.replica? m p = some r)
      (serving : r.status = .active) :
      Ready settings t ⟨m, .setPriority p priority⟩
        ⟨.unchanged, .setPriority m p priority, .replicaPriority p priority⟩
  | overwriteHosts {m : MemberId} {p : PartitionId} {hosts : List MemberId}
      (coordinator : settings.coordinator = some m) (nonempty : hosts ≠ [])
      (nodup : hosts.Nodup)
      (known : ∀ id ∈ hosts, ∃ s, t.status? id = some s ∧ s ≠ .leaving) :
      Ready settings t ⟨m, .overwriteHosts p hosts⟩
        ⟨.unchanged, .overwriteHosts m p (Priorities.descending hosts),
          .overwriteReplicas p (Priorities.descending hosts)⟩
  | forceReconfigure {m : MemberId} {p : PartitionId} {bootstrap : Bool}
      (hosted : (t.replica? m p).isSome) :
      Ready settings t ⟨m, .forceReconfigure p bootstrap⟩
        ⟨.unchanged, .forceReconfigure m p (t.replicas p).keys bootstrap, .replicaActive p⟩

namespace Operation

variable {settings : Settings} {t : Topology} {m : MemberId} {p : PartitionId}

/-! ## Checks on members -/

theorem knownMember_eq_ok_iff {x : Member} : knownMember t m = .ok x ↔ t.member? m = some x := by
  unfold knownMember
  cases t.member? m <;> simp

theorem activeMember_eq_ok_iff {x : Member} :
    activeMember t m = .ok x ↔ t.member? m = some x ∧ x.status = .active := by
  unfold activeMember
  rw [bind_eq_ok_iff]
  simp only [knownMember_eq_ok_iff]
  constructor
  · rintro ⟨y, hy, h⟩
    by_cases hactive : y.isActive
    · have hxy : y = x := by simpa [hactive, pure, Except.pure] using h
      subst hxy
      exact ⟨hy, by simpa [Member.isActive] using hactive⟩
    · simp [hactive] at h
  · rintro ⟨hx, hactive⟩
    exact ⟨x, hx, by simp [Member.isActive, hactive, pure, Except.pure]⟩

theorem checkHosts_eq_ok_iff {hosts : List MemberId} :
    checkHosts t hosts = .ok () ↔ ∀ id ∈ hosts, ∃ s, t.status? id = some s ∧ s ≠ .leaving := by
  induction hosts with
  | nil => simp [checkHosts]
  | cons host rest ih =>
      rw [checkHosts, bind_eq_ok_iff]
      simp only [knownMember_eq_ok_iff, List.forall_mem_cons, ← ih]
      cases hm : t.member? host with
      | none => simp [Topology.status?, hm]
      | some x =>
          by_cases hleaving : x.status = .leaving
          · simp [Topology.status?, hm, hleaving]
          · simp [Topology.status?, hm, hleaving]

private theorem views_of_member {x : Member} (hm : t.member? m = some x) :
    t.status? m = some x.status ∧ ∀ p, t.replica? m p = x.replica? p := by
  simp [Topology.status?, Topology.replica?, hm]

private theorem exists_member_of_status {s : Status} (hs : t.status? m = some s) :
    ∃ x, t.member? m = some x ∧ x.status = s ∧ ∀ p, t.replica? m p = x.replica? p := by
  rcases Option.map_eq_some_iff.1 hs with ⟨x, hm, hstatus⟩
  exact ⟨x, hm, hstatus, (views_of_member hm).2⟩

private theorem any_not_joining_eq_false_iff (r : Option Replica) :
    r.any (fun r => r.status ≠ .joining) = false ↔ ∀ x, r = some x → x.status = .joining := by
  cases r <;> simp

/-! ## What passes is ready -/

theorem ready_of_prepare {op : Operation} {prepared : Prepared}
    (h : op.prepare settings t = .ok prepared) : Ready settings t op prepared := by
  -- Each check is followed to its one way out that is no refusal.
  rcases op with ⟨m, action⟩
  cases action with
  | joinCluster =>
      simp only [prepare, prepareJoinCluster] at h
      cases hm : t.member? m with
      | none =>
          have heq : (⟨.memberJoining, .addMember m, .memberActive⟩ : Prepared) = prepared := by
            simpa [hm] using h
          subst heq
          exact .joinCluster fun s hs => by simp [Topology.status?, hm] at hs
      | some x =>
          by_cases hjoining : x.status = .joining
          · have heq : (⟨.memberJoining, .addMember m, .memberActive⟩ : Prepared) = prepared := by
              simpa [hm, hjoining] using h
            subst heq
            exact .joinCluster fun s hs => by
              simpa [Topology.status?, hm, hjoining, eq_comm] using hs
          · simp [hm, hjoining] at h
  | leaveCluster =>
      simp only [prepare, prepareLeaveCluster, bind_eq_ok_iff, knownMember_eq_ok_iff] at h
      rcases h with ⟨x, hm, h⟩
      have hviews := views_of_member hm
      by_cases hjoining : x.status = .joining
      · simp [hjoining] at h
      · by_cases hempty : x.replicas.isEmpty
        · have heq : (⟨.memberLeaving, .removeMember m, .memberRemoved⟩ : Prepared) = prepared := by
            simpa [hjoining, hempty, pure, Except.pure] using h
          subst heq
          refine .leaveCluster hviews.1 hjoining fun p => ?_
          rw [hviews.2 p]
          exact x.replicas_isEmpty_iff.1 hempty p
        · simp [hjoining, hempty] at h
  | joinPartition p priority =>
      simp only [prepare, prepareJoinPartition, bind_eq_ok_iff, activeMember_eq_ok_iff] at h
      rcases h with ⟨x, ⟨hm, hactive⟩, h⟩
      have hviews := views_of_member hm
      have hfilling : ∀ r, x.replica? p = some r → r.status = .joining := by
        intro r hr
        by_contra hserving
        simp [hr, hserving] at h
      have hpassed : (x.replica? p).any (fun r => r.status ≠ .joining) = false :=
        (any_not_joining_eq_false_iff _).2 hfilling
      rw [hpassed, if_neg Bool.false_ne_true] at h
      by_cases hothers : ((t.priorities p).erase m).isEmpty
      · simp only [hothers, if_true, refuse_ne_ok] at h
      · have heq :
            (⟨.replicaJoining p priority, .join m p (((t.priorities p).erase m).insert m priority),
              .replicaActive p⟩ : Prepared) = prepared := by
          rw [if_neg hothers] at h
          exact Except.ok.inj h
        cases heq
        refine .joinPartition (by rw [hviews.1, hactive]) (fun r hr => ?_) ?_
        · rw [hviews.2 p] at hr
          exact hfilling r hr
        · rwa [Std.ExtTreeMap.isEmpty_iff] at hothers
  | leavePartition p =>
      simp only [prepare, prepareLeavePartition, bind_eq_ok_iff, activeMember_eq_ok_iff] at h
      rcases h with ⟨x, ⟨hm, hactive⟩, h⟩
      have hviews := views_of_member hm
      by_cases hhosts : x.hosts p
      · by_cases hbelow : t.replicaCount p - 1 < settings.floor
        · simp [hhosts, hbelow] at h
        · have heq :
              (⟨.replicaLeaving p, .leave m p, .replicaRemoved p⟩ : Prepared) =
                prepared := by
            simpa [hhosts, hbelow, pure, Except.pure] using h
          subst heq
          refine .leavePartition (by rw [hviews.1, hactive]) ?_ (Nat.le_of_not_lt hbelow)
          rw [hviews.2 p, ← Member.hosts_eq_isSome]
          exact hhosts
      · simp [hhosts] at h
  | setPriority p priority =>
      simp only [prepare, prepareSetPriority, bind_eq_ok_iff, activeMember_eq_ok_iff] at h
      rcases h with ⟨x, ⟨hm, hactive⟩, h⟩
      have hviews := views_of_member hm
      cases hr : x.replica? p with
      | none => simp [hr] at h
      | some r =>
          by_cases hserving : r.status = .active
          · have heq :
                (⟨.unchanged, .setPriority m p priority, .replicaPriority p priority⟩ : Prepared) =
                  prepared := by
              simpa [hr, hserving, pure, Except.pure] using h
            subst heq
            exact .setPriority (by rw [hviews.1, hactive]) (by rw [hviews.2 p, hr]) hserving
          · simp [hr, hserving] at h
  | overwriteHosts p hosts =>
      simp only [prepare, prepareOverwriteHosts] at h
      by_cases hcoordinator : settings.coordinator = some m
      · by_cases hnonempty : hosts = []
        · simp [hcoordinator, hnonempty] at h
        · by_cases hnodup : hosts.Nodup
          · simp only [hcoordinator, hnonempty, hnodup, List.isEmpty_iff, ne_eq, not_true_eq_false,
              if_false, bind_eq_ok_iff] at h
            rcases h with ⟨⟨⟩, hcheck, h⟩
            let priorities := Priorities.descending hosts
            have heq : (⟨.unchanged, .overwriteHosts m p priorities,
                .overwriteReplicas p priorities⟩ : Prepared) = prepared := by
              simpa [pure, Except.pure] using h
            subst heq
            exact .overwriteHosts hcoordinator hnonempty hnodup (checkHosts_eq_ok_iff.1 hcheck)
          · simp [hcoordinator, hnonempty, hnodup] at h
      · simp [hcoordinator] at h
  | forceReconfigure p bootstrap =>
      simp only [prepare, prepareForceReconfigure, bind_eq_ok_iff, knownMember_eq_ok_iff] at h
      rcases h with ⟨x, hm, h⟩
      by_cases hhosts : x.hosts p
      · have heq :
            (⟨.unchanged, .forceReconfigure m p (t.replicas p).keys bootstrap,
              .replicaActive p⟩ : Prepared) = prepared := by
          simpa [hhosts, pure, Except.pure] using h
        subst heq
        refine .forceReconfigure ?_
        rw [(views_of_member hm).2 p, ← Member.hosts_eq_isSome]
        exact hhosts
      · simp [hhosts] at h

/-! ## What is ready passes -/

theorem prepare_of_ready {op : Operation} {prepared : Prepared}
    (h : Ready settings t op prepared) : op.prepare settings t = .ok prepared := by
  cases h with
  | @joinCluster m free =>
      simp only [prepare, prepareJoinCluster]
      cases hm : t.member? m with
      | none => rfl
      | some x =>
          have hjoining : x.status = .joining := free _ (views_of_member hm).1
          simp [hjoining]
  | @leaveCluster m s known settled empty =>
      rcases exists_member_of_status known with ⟨x, hm, hstatus, hreplicas⟩
      have hempty : x.replicas.isEmpty :=
        x.replicas_isEmpty_iff.2 fun p => by rw [← hreplicas p]; exact empty p
      simp only [prepare, prepareLeaveCluster, bind_eq_ok_iff, knownMember_eq_ok_iff]
      exact ⟨x, hm, by simp [hstatus, settled, hempty, pure, Except.pure]⟩
  | @joinPartition m p priority active filling others =>
      rcases exists_member_of_status active with ⟨x, hm, hstatus, hreplicas⟩
      have hpassed : (x.replica? p).any (fun r => r.status ≠ .joining) = false := by
        rw [any_not_joining_eq_false_iff, ← hreplicas p]
        exact filling
      have hothers : ¬ ((t.priorities p).erase m).isEmpty := by
        rwa [Std.ExtTreeMap.isEmpty_iff]
      simp only [prepare, prepareJoinPartition, bind_eq_ok_iff, activeMember_eq_ok_iff]
      refine ⟨x, ⟨hm, hstatus⟩, ?_⟩
      rw [hpassed, if_neg Bool.false_ne_true, if_neg hothers]
      rfl
  | @leavePartition m p active hosted kept =>
      rcases exists_member_of_status active with ⟨x, hm, hstatus, hreplicas⟩
      have hhosts : x.hosts p := by rw [Member.hosts_eq_isSome, ← hreplicas p]; exact hosted
      simp only [prepare, prepareLeavePartition, bind_eq_ok_iff, activeMember_eq_ok_iff]
      exact ⟨x, ⟨hm, hstatus⟩, by simp [hhosts, Nat.not_lt.2 kept, pure, Except.pure]⟩
  | @setPriority m p priority r active hosted serving =>
      rcases exists_member_of_status active with ⟨x, hm, hstatus, hreplicas⟩
      have hr : x.replica? p = some r := by rw [← hreplicas p]; exact hosted
      simp only [prepare, prepareSetPriority, bind_eq_ok_iff, activeMember_eq_ok_iff]
      exact ⟨x, ⟨hm, hstatus⟩, by simp [hr, serving, pure, Except.pure]⟩
  | @overwriteHosts m p hosts coordinator nonempty nodup known =>
      have hcheck := checkHosts_eq_ok_iff.2 known
      simp [prepare, prepareOverwriteHosts, coordinator, nonempty, nodup, hcheck, bind,
        Except.bind, pure, Except.pure]
  | @forceReconfigure m p bootstrap hosted =>
      cases hm : t.member? m with
      | none => simp [Topology.replica?, hm] at hosted
      | some x =>
          have hhosts : x.hosts p := by
            rw [Member.hosts_eq_isSome, ← (views_of_member hm).2 p]; exact hosted
          simp only [prepare, prepareForceReconfigure, bind_eq_ok_iff, knownMember_eq_ok_iff]
          exact ⟨x, hm, by simp [hhosts, pure, Except.pure]⟩

theorem prepare_eq_ok_iff {op : Operation} {prepared : Prepared} :
    op.prepare settings t = .ok prepared ↔ Ready settings t op prepared :=
  ⟨ready_of_prepare, prepare_of_ready⟩

theorem checkHosts_congr {t' : Topology} (h : t.members = t'.members) (hosts : List MemberId) :
    checkHosts t hosts = checkHosts t' hosts := by
  induction hosts with
  | nil => rfl
  | cons host rest ih =>
      have hknown : knownMember t host = knownMember t' host := by
        simp only [knownMember, Topology.member?, h]
      simp only [checkHosts, hknown, ih]

theorem prepare_congr {t' : Topology} (settings : Settings) (h : t.members = t'.members)
    (op : Operation) :
    op.prepare settings t = op.prepare settings t' := by
  rcases op with ⟨m, action⟩
  cases action with
  | overwriteHosts p hosts =>
      simp only [prepare, prepareOverwriteHosts, checkHosts_congr h]
  | _ =>
      rcases t with ⟨version, initialized, members, pending, last⟩
      rcases t' with ⟨version', initialized', members', pending', last'⟩
      cases h
      rfl

end Operation

theorem Ready.congr {settings : Settings} {t t' : Topology} {op : Operation} {prepared : Prepared}
    (h : t.members = t'.members) (ready : Ready settings t op prepared) :
    Ready settings t' op prepared := by
  rw [← Operation.prepare_eq_ok_iff, ← Operation.prepare_congr settings h]
  exact Operation.prepare_of_ready ready

end ReplicaCluster
