import ReplicaCluster.Proofs.Interleaving.Serialization
import ReplicaCluster.Proofs.Topology.Chronicle
import ReplicaCluster.Proofs.Topology.Room

/-!
# Versions detect every change

Every revision of a topology gives it a higher version or leaves it as it is (`Topology.Ages`), and
so does any number of them.  Hence two topologies of one history are equal if their versions are,
and a conditional write that compares topologies cannot be taken in by one that has come back.

Versions are kept in 64 bits, so all of this holds for as long as they have room.  A write takes no
more than two from the room of any counter (`Topology.Spends`), which gives a run as many steps as
half the room that it starts with (`versions_detect_changes`).
-/

namespace ReplicaCluster

namespace Topology

/-! ## Ageing -/

namespace Ages

variable {t t' t'' : Topology}

theorem trans (h : t.Ages t') (h' : t'.Ages t'') : t.Ages t'' := by
  rcases h with rfl | hlt
  · exact h'
  · rcases h' with rfl | hlt'
    · exact Or.inr hlt
    · exact Or.inr (hlt.trans hlt')

theorem version_le (h : t.Ages t') : t.version ≤ t'.version := by
  rcases h with rfl | hlt
  · exact le_rfl
  · exact hlt.le

/-- Versions of 64 bits tell the two apart if the later one has not left its bits. -/
theorem version64_lt (h : t.Ages t') (room : t'.version < UInt64.size) :
    t' = t ∨ t.version64 < t'.version64 := by
  rcases h with hsame | hlt
  · exact Or.inl hsame
  · exact Or.inr ((version64_lt_iff (hlt.trans room) room).2 hlt)

theorem version64_le (h : t.Ages t') (room : t'.version < UInt64.size) :
    t.version64 ≤ t'.version64 :=
  (version64_le_iff (h.version_le.trans_lt room) room).2 h.version_le

theorem eq_of_version64_eq (h : t.Ages t') (room : t'.version < UInt64.size)
    (hversion : t'.version64 = t.version64) : t' = t := by
  rcases h.version64_lt room with hsame | hlt
  · exact hsame
  · exact absurd hversion.symm (UInt64.ne_of_lt hlt)

end Ages

/-- A write takes no more than two from the room of any counter. -/
def Spends (t t' : Topology) : Prop := ∀ n, t.Room (n + 2) → t'.Room n

end Topology

/-- A mutation changes nothing, or leads to one of the next two versions. -/
theorem Mutation.version_after (m : Mutation) (t : Topology) :
    m.after t = t ∨ (m.after t).version = t.version + 1 ∨ (m.after t).version = t.version + 2 := by
  cases m with
  | start operations =>
      -- What is refused changes nothing.
      cases hstart : t.startChange operations with
      | error e => exact Or.inl (by simp [after, attempt, hstart])
      | ok t' =>
          rcases Topology.startChange_eq_ok_iff.1 hstart with ⟨-, -, rfl⟩
          exact Or.inr (Or.inl (by simp [after, attempt, hstart, Topology.begun]))
  | advance now member u =>
      cases hadvance : t.advanceChange now member u with
      | error e => exact Or.inl (by simp [after, attempt, hadvance])
      | ok t' =>
          rcases Topology.advanceChange_eq_ok_iff.1 hadvance with ⟨c, op, rest, -, -, -, rfl⟩
          have hafter : (advance now member u).after t = t.advanced now member u c := by
            simp [after, attempt, hadvance]
          rw [hafter, Topology.version_advanced]
          rcases u.version_apply member t with hsame | hupdated
          · exact Or.inr (Or.inl (by rw [hsame]))
          · exact Or.inr (Or.inr (by rw [hupdated]))
  | cancel now =>
      cases hpending : t.pending with
      | none => exact Or.inl (by simp [after, attempt, Topology.cancelChange, hpending])
      | some c =>
          exact Or.inr (Or.inl (by simp [after, attempt, Topology.cancelChange, hpending]))
  | update member u =>
      rcases u.version_apply member t with hsame | hnext
      · exact Or.inl hsame
      · exact Or.inr (Or.inl hnext)
  | reviseMember id revise => exact Or.inr (Or.inl rfl)
  | addMember id m => exact Or.inr (Or.inl rfl)
  | overwriteReplicas p priorities => exact Or.inr (Or.inl rfl)

theorem Mutation.ages (m : Mutation) (t : Topology) : t.Ages (m.after t) := by
  rcases m.version_after t with hsame | hnext | hnext
  · exact Or.inl hsame
  · exact Or.inr (by omega)
  · exact Or.inr (by omega)

theorem Mutation.version_after_le (m : Mutation) (t : Topology) :
    (m.after t).version ≤ t.version + 2 := by
  rcases m.version_after t with hsame | hnext | hnext
  · rw [hsame]
    exact Nat.le_add_right _ _
  · omega
  · omega

theorem Chronicle.ages_foldl (mutations : List Mutation) :
    ∀ c : Chronicle, c.topology.Ages (mutations.foldl Chronicle.extend c).topology := by
  induction mutations with
  | nil => exact fun c => Or.inl rfl
  | cons m rest ih => exact fun c => (m.ages c.topology).trans (ih (c.extend m))

theorem Chronicle.version_foldl_le (mutations : List Mutation) :
    ∀ c : Chronicle, (mutations.foldl Chronicle.extend c).topology.version ≤
      c.topology.version + 2 * mutations.length := by
  induction mutations with
  | nil => exact fun c => Nat.le_refl _
  | cons m rest ih =>
      intro c
      have hfirst := m.version_after_le c.topology
      have hrest := ih (c.extend m)
      have htopology : (c.extend m).topology = m.after c.topology := rfl
      rw [htopology] at hrest
      rw [List.foldl_cons, List.length_cons]
      omega

namespace Interleaving

/-! ## Room -/

section Room

variable {i : Party} {task : Task} {s s' : Scene} {events : List Event} {t t' : Topology}

theorem spends_of_performs (h : t.Performs t') : t.Spends t' := by
  intro n room
  cases h with
  | updated u member => exact (room.mono (Nat.le_succ (n + 1))).apply u member
  | advanced pending remaining now u => exact room.advanced pending now _ u

theorem revises_spends (now : Int) (duty : sharing i task) :
    (task.process now).Revises Topology.Spends := by
  cases task with
  | change settings dryRun planner =>
      have hrequest : (Coordinator.request settings now dryRun planner).Revises
          (Topology.Begins fun _ => True) :=
        Coordinator.revises_request settings now dryRun fun _ _ _ _ _ => trivial
      refine (hrequest.map _).mono ?_
      rintro t t' ⟨-, operations, -, -, rfl⟩ n room
      exact (room.mono (Nat.le_succ (n + 1))).begun operations
  | cancel id =>
      refine ((Coordinator.revises_cancel now id).map _).mono ?_
      rintro t t' ⟨c, time, -, rfl⟩ n room
      exact (room.mono (Nat.le_succ (n + 1))).cancelChange time
  | advance settings =>
      exact ((Execution.revises_performs settings now).map _).mono fun t t' => spends_of_performs
  | manage settings request => cases i <;> exact duty.elim

/-- A run takes from the room of its store no more than two for each of its steps. -/
theorem room_run (h : Keeping sharing (fun _ _ => Topology.Spends) s)
    (run : Run (Step sharing) s events s') :
    ∀ n, s.stored.Room (2 * events.length + n) → s'.stored.Room n := by
  -- From the end of the run: the steps before the last one leave room for two more.
  induction run with
  | refl =>
      intro n room
      simpa using room
  | @tail events s₁ s₂ e run last ih =>
      intro n room
      have hlength : 2 * (events ++ [e]).length + n = 2 * events.length + (n + 2) := by
        rw [List.length_append, List.length_singleton]
        omega
      have hbefore : s₁.stored.Room (n + 2) := ih (n + 2) (hlength ▸ room)
      rcases last.stored_eq_or_wrote with hstored | ⟨i, task, rfl⟩
      · rw [hstored]
        exact hbefore.mono (Nat.le_add_right n 2)
      · -- Only a write spends anything, and the guarantee of its task says how much.
        have hkeeping := h.run (fun _ _ now duty => revises_spends now duty) run
        rcases hkeeping.wrote last with ⟨-, -, -, hspends⟩
        exact hspends n hbefore

end Room

/-! ## Versions in runs -/

variable {s s' : Scene} {events : List Event}

theorem Keeping.ages_run (h : Keeping sharing (fun _ => Task.Books) s)
    (run : Run (Step sharing) s events s') : s.stored.Ages s'.stored := by
  induction run with
  | refl => exact Or.inl rfl
  | tail run last ih => exact ih.trans ((keeping_run run h).ages last)

/-- Any number of coordinators request and cancel changes on one store, and one driver carries them
out.  Whatever the order of their steps, and as long as the counters at the start have room for two
more at each step,

* a write stores the topology that it finds, or one with a higher version;
* no counter leaves its 64 bits, versions never fall, and two topologies of the run with equal
  versions are equal.

The same holds of any revisions of a topology, by its own operations or by updates, as long as its
version has room for two more at each of them.  A single update leaves each member that it does not
add or remove as it was, or raises its version by one, as long as that has room for one more. -/
theorem versions_detect_changes {t₀ : Topology} (run : Run (Step sharing) (.start t₀) events s) :
    (t₀.Room (2 * (events.length + 1)) →
      ∀ i task t t' s', Step sharing s (.wrote i task t t') s' →
        t = s.stored ∧ t' = s'.stored ∧ (t' = t ∨ t.version64 < t'.version64)) ∧
    (∀ events' s', Run (Step sharing) s events' s' →
      t₀.Room (2 * (events.length + events'.length)) →
        s'.stored.Room 0 ∧ s.stored.version64 ≤ s'.stored.version64 ∧
          (s'.stored.version64 = s.stored.version64 → s'.stored = s.stored)) ∧
    (∀ (t : Topology) (m : Mutation), t.version + 2 < UInt64.size →
      m.after t = t ∨ t.version64 < (m.after t).version64) ∧
    (∀ (t : Topology) (mutations : List Mutation),
      t.version + 2 * mutations.length < UInt64.size →
        t.version64 ≤ (chronicle t mutations).topology.version64 ∧
          ((chronicle t mutations).topology.version64 = t.version64 →
            (chronicle t mutations).topology = t)) ∧
    ∀ (u : Update) (target id : MemberId) (t : Topology) (m m' : Member),
      t.member? id = some m → (u.apply target t).member? id = some m' →
        m.version + 1 < UInt64.size →
          m' = m ∨ (m'.version64 = m.version64 + 1 ∧ m.version64 < m'.version64) := by
  have hbooks := keeping_run run (keeping_start t₀)
  have hspends : Keeping sharing (fun _ _ => Topology.Spends) s :=
    (keeping_start t₀).run (fun _ _ now duty => revises_spends now duty) run
  refine ⟨?_, ?_, ?_, ?_, ?_⟩
  · intro room i task t t' s' step
    have hroom : s.stored.Room 2 := room_run (keeping_start t₀) run 2 room
    rcases hbooks.wrote step with ⟨rfl, rfl, -, hages⟩
    rcases hspends.wrote step with ⟨-, -, -, htaken⟩
    exact ⟨rfl, rfl, hages.ages.version64_lt (htaken 0 hroom).version⟩
  · intro events' s' later room
    have hroom : s.stored.Room (2 * events'.length) :=
      room_run (keeping_start t₀) run _ (Nat.mul_add 2 _ _ ▸ room)
    have hroom' : s'.stored.Room 0 := room_run hspends later 0 hroom
    have hages := hbooks.ages_run later
    exact ⟨hroom', hages.version64_le hroom'.version, hages.eq_of_version64_eq hroom'.version⟩
  · intro t m room
    exact (m.ages t).version64_lt ((m.version_after_le t).trans_lt room)
  · intro t mutations room
    have hages : t.Ages (chronicle t mutations).topology :=
      Chronicle.ages_foldl mutations ⟨t, []⟩
    have hroom : (chronicle t mutations).topology.version < UInt64.size :=
      (Chronicle.version_foldl_le mutations ⟨t, []⟩).trans_lt room
    exact ⟨hages.version64_le hroom, hages.eq_of_version64_eq hroom⟩
  · intro u target id t m m' before after room
    exact (Topology.member_ages_apply u before after).version64 room

/-- A change is begun and cancelled again before anything is done. -/
def retraction : List Choice :=
  [.begin (.coordinator 0) (.change {} false (.perform [⟨"a", .joinCluster⟩])) 0,
    .go (.coordinator 0), .go (.coordinator 0), .begin (.coordinator 1) (.cancel 1) 0,
    .go (.coordinator 1)]

/-- The members and the ledger come back, and the versions, the last ones there are, tell that
something has happened.  A member gets the last version that there is. -/
theorem versions_detect_changes_retraction :
    let late : Topology := { Topology.initial with version := UInt64.size - 11 }
    let old : Member := { Member.joining with version := UInt64.size - 2 }
    late.Room (2 * retraction.length) ∧
      (∃ events s, (Scene.start late).follow retraction = some (events, s) ∧
        s.stored.members = late.members ∧ s.stored.pending = late.pending ∧
        late.version64 < s.stored.version64) ∧
      ∃ m, (Update.memberActive.apply "a" (late.addMember "a" old)).member? "a" = some m ∧
        old.version64 < m.version64 := by
  intro late old
  have hroom : late.Room (2 * retraction.length) :=
    ⟨by decide, by simp [late, Topology.initial, Topology.member?],
      by simp [late, Topology.initial], by simp [late, Topology.initial]⟩
  have hviews : ((Scene.start late).follow retraction).map (fun r =>
      decide (r.1.length = retraction.length ∧ r.2.stored.members = late.members ∧
        r.2.stored.pending = none ∧ r.2.stored ≠ late)) = some true := by
    decide +kernel
  have hpermitted : ∀ choice ∈ retraction, choice.Permitted sharing := by
    simp [retraction, Choice.Permitted, sharing]
  have hstart : Run (Step sharing) (.start late) [] (.start late) := .refl
  refine ⟨hroom, ?_, ?_⟩
  · rcases hfollow : (Scene.start late).follow retraction with _ | ⟨events, s⟩
    · simp [hfollow] at hviews
    · have hback : events.length = retraction.length ∧ s.stored.members = late.members ∧
          s.stored.pending = none ∧ s.stored ≠ late := by
        simpa [hfollow] using hviews
      rcases hback with ⟨hlength, hmembers, hidle, hchanged⟩
      have hversions := (versions_detect_changes hstart).2.1 events s
        (run_of_follow hpermitted hfollow) (by simpa [hlength] using hroom)
      refine ⟨events, s, rfl, hmembers, hidle, UInt64.lt_of_le_of_ne hversions.2.1 ?_⟩
      intro hsame
      exact hchanged (hversions.2.2 hsame.symm)
  · have hbefore : (late.addMember "a" old).member? "a" = some old := by decide +kernel
    have hafter : (Update.memberActive.apply "a" (late.addMember "a" old)).member? "a" =
        some (old.withStatus .active) := by
      decide +kernel
    refine ⟨_, hafter, ?_⟩
    rcases (versions_detect_changes hstart).2.2.2.2 _ _ _ _ _ _ hbefore hafter (by decide) with
      hsame | hnext
    · have hchanged : old.withStatus .active ≠ old := by decide
      exact absurd hsame hchanged
    · exact hnext.2

end Interleaving

end ReplicaCluster
