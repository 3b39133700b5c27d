import ReplicaCluster.Proofs.Topology.Ledger
import ReplicaCluster.Topology.Lemmas

/-!
# The room of 64 bits

Versions and the numbers of changes only grow, and they are kept in 64 bits.  `Topology.Room n` says
that every counter of a topology can be raised `n` more times before its 64 bits are full.  What is
done to a topology takes little of that: an update raises no counter by more than one, and advancing
a change none by more than two.

As long as there is room, versions of 64 bits are ordered as their numbers are
(`version64_lt_iff`).  When it is used up, the next version is 0 again
(`version64_updateMember_of_full`).
-/

namespace ReplicaCluster

/-! ## Members -/

namespace Member

/-- A single update leaves a member as it is, or gives it the next version. -/
def Ages (m m' : Member) : Prop := m' = m ∨ m'.version = m.version + 1

/-- The version as it is kept. -/
def version64 (m : Member) : UInt64 := .ofNat m.version

section Ages

variable (m : Member) (p : PartitionId)

theorem ages_withStatus (s : Status) : m.Ages (m.withStatus s) := Or.inr rfl

theorem ages_withReplica (r : Replica) : m.Ages (m.withReplica p r) := Or.inr rfl

theorem ages_modifyReplica (f : Replica → Replica) : m.Ages (m.modifyReplica p f) := by
  unfold modifyReplica
  split
  · exact m.ages_withReplica p _
  · exact Or.inl rfl

theorem ages_withoutReplica : m.Ages (m.withoutReplica p) := by
  unfold withoutReplica
  split
  · exact Or.inr rfl
  · exact Or.inl rfl

theorem ages_overwriteReplica (r : Option Priority) : m.Ages (m.overwriteReplica p r) := by
  cases r with
  | some priority => exact m.ages_withReplica p _
  | none => exact m.ages_withoutReplica p

end Ages

variable {m m' : Member}

theorem Ages.version_le (h : m.Ages m') : m'.version ≤ m.version + 1 := by
  rcases h with rfl | hnext
  · exact Nat.le_succ _
  · exact Nat.le_of_eq hnext

/-- With room for one more, the next version is the next number of 64 bits, and a higher one. -/
theorem Ages.version64 (h : m.Ages m') (room : m.version + 1 < UInt64.size) :
    m' = m ∨ (m'.version64 = m.version64 + 1 ∧ m.version64 < m'.version64) := by
  rcases h with hsame | hnext
  · exact Or.inl hsame
  · have hversion : m'.version64 = m.version64 + 1 := by
      simp [Member.version64, hnext, UInt64.ofNat_add]
    refine Or.inr ⟨hversion, ?_⟩
    rw [Member.version64, Member.version64, UInt64.lt_iff_toNat_lt,
      UInt64.toNat_ofNat_of_lt' (Nat.lt_of_succ_lt room), hnext, UInt64.toNat_ofNat_of_lt' room]
    exact Nat.lt_succ_self _

end Member

namespace Topology

variable {t t' : Topology} {target id : MemberId} {m m' : Member} {n : Nat}

/-! ## Members in topologies -/

/-- Where a revision of one member ages that member, or brings in a new one at version 0, every
member is aged or new. -/
theorem member_ages_updateMember {f : Option Member → Option Member}
    (known : ∀ m m', f (some m) = some m' → m.Ages m')
    (unknown : ∀ m', f none = some m' → m'.version = 0)
    (after : (t.updateMember target f).member? id = some m') :
    (∃ m, t.member? id = some m ∧ m.Ages m') ∨ t.member? id = none ∧ m'.version = 0 := by
  rw [member?_updateMember] at after
  by_cases htarget : target = id
  · subst htarget
    rw [if_pos rfl] at after
    cases hbefore : t.member? target with
    | none => exact Or.inr ⟨rfl, unknown m' (hbefore ▸ after)⟩
    | some m => exact Or.inl ⟨m, rfl, known m m' (hbefore ▸ after)⟩
  · rw [if_neg htarget] at after
    exact Or.inl ⟨m', after, Or.inl rfl⟩

theorem member_ages_modifyMember {f : Member → Member} (hf : ∀ m : Member, m.Ages (f m))
    (after : (t.modifyMember target f).member? id = some m') :
    (∃ m, t.member? id = some m ∧ m.Ages m') ∨ t.member? id = none ∧ m'.version = 0 := by
  refine member_ages_updateMember ?_ ?_ after
  · intro m m' hrevised
    obtain rfl : f m = m' := by simpa using hrevised
    exact hf m
  · intro m' hrevised
    simp at hrevised

/-- Whoever is a member after an update was one before, and is the same or one version older, or
enters with it and has version 0. -/
theorem member_ages_or_enters (u : Update) (after : (u.apply target t).member? id = some m') :
    (∃ m, t.member? id = some m ∧ m.Ages m') ∨ t.member? id = none ∧ m'.version = 0 := by
  cases u with
  | unchanged => exact Or.inl ⟨m', after, Or.inl rfl⟩
  | memberJoining =>
      refine member_ages_updateMember ?_ ?_ after
      · intro m m' hrevised
        obtain rfl : m.withStatus .joining = m' := by simpa using hrevised
        exact m.ages_withStatus _
      · intro m' hrevised
        obtain rfl : Member.joining = m' := by simpa using hrevised
        rfl
  | memberActive => exact member_ages_modifyMember (fun m => m.ages_withStatus _) after
  | memberLeaving => exact member_ages_modifyMember (fun m => m.ages_withStatus _) after
  | memberRemoved => exact member_ages_updateMember (by simp) (by simp) after
  | replicaJoining p priority =>
      exact member_ages_modifyMember (fun m => m.ages_withReplica p _) after
  | replicaActive p => exact member_ages_modifyMember (fun m => m.ages_modifyReplica p _) after
  | replicaLeaving p => exact member_ages_modifyMember (fun m => m.ages_modifyReplica p _) after
  | replicaRemoved p => exact member_ages_modifyMember (fun m => m.ages_withoutReplica p) after
  | replicaPriority p priority =>
      exact member_ages_modifyMember (fun m => m.ages_modifyReplica p _) after
  | overwriteReplicas p priorities =>
      -- The one update that is not about its target alone.
      simp only [Update.apply, member?_overwriteReplicas, Option.map_eq_some_iff] at after
      rcases after with ⟨m, hbefore, rfl⟩
      exact Or.inl ⟨m, hbefore, m.ages_overwriteReplica p _⟩

/-- Whoever is a member before and after an update is the same, or one version older. -/
theorem member_ages_apply (u : Update) (before : t.member? id = some m)
    (after : (u.apply target t).member? id = some m') : m.Ages m' := by
  rcases member_ages_or_enters u after with ⟨m₀, hbefore, hages⟩ | ⟨hnone, -⟩
  · obtain rfl : m₀ = m := by simpa [hbefore] using before
    exact hages
  · simp [hnone] at before

/-! ## Room -/

/-- Every counter of the topology can be raised so many more times within 64 bits. -/
structure Room (t : Topology) (n : Nat) : Prop where
  version : t.version + n < UInt64.size
  members : ∀ id m, t.member? id = some m → m.version + n < UInt64.size
  pending : ∀ c, t.pending = some c → c.id + n < UInt64.size
  lastChange : ∀ c, t.lastChange = some c → c.id + n < UInt64.size

namespace Room

theorem mono {k : Nat} (h : t.Room n) (hk : k ≤ n) : t.Room k where
  version := Nat.lt_of_le_of_lt (Nat.add_le_add_left hk _) h.version
  members id m hm := Nat.lt_of_le_of_lt (Nat.add_le_add_left hk _) (h.members id m hm)
  pending c hc := Nat.lt_of_le_of_lt (Nat.add_le_add_left hk _) (h.pending c hc)
  lastChange c hc := Nat.lt_of_le_of_lt (Nat.add_le_add_left hk _) (h.lastChange c hc)

/-- Raising the version once more leaves the room that the other counters have. -/
theorem raise (h : t.Room (n + 1)) : Room { t with version := t.version + 1 } n where
  version := by
    have hversion := h.version
    show t.version + 1 + n < UInt64.size
    omega
  members := (h.mono (Nat.le_succ n)).members
  pending := (h.mono (Nat.le_succ n)).pending
  lastChange := (h.mono (Nat.le_succ n)).lastChange

theorem apply (h : t.Room (n + 1)) (u : Update) (member : MemberId) :
    (u.apply member t).Room n where
  version := by
    have hversion := h.version
    rcases u.version_apply member t with hsame | hnext
    · rw [hsame]
      omega
    · omega
  members id m' hm' := by
    -- A member that enters starts at 0, so it has the room that the topology's own version has.
    rcases member_ages_or_enters u hm' with ⟨m, hm, hages⟩ | ⟨-, hnew⟩
    · have hroom := h.members id m hm
      have hraised := hages.version_le
      omega
    · have hroom := h.version
      omega
  pending c hc := (h.mono (Nat.le_succ n)).pending c (by simpa using hc)
  lastChange c hc := (h.mono (Nat.le_succ n)).lastChange c (by simpa using hc)

/-- A change that ends hands its number on. -/
theorem settle (h : t.Room n) {c : PendingChange} (number : c.id + n < UInt64.size) (now : Int) :
    (t.settle now c).Room n := by
  unfold Topology.settle
  split
  · exact ⟨h.version, h.members, by simp, by simpa using number⟩
  · exact ⟨h.version, h.members, by simpa using number, h.lastChange⟩

theorem advanced (h : t.Room (n + 2)) {c : PendingChange} (pending : t.pending = some c)
    (now : Int) (member : MemberId) (u : Update) : (t.advanced now member u c).Room n := by
  have hnumber : c.advance.id + (n + 1) < UInt64.size := by
    rw [PendingChange.id_advance]
    exact (h.mono (Nat.le_succ (n + 1))).pending c pending
  -- One for the update, and one for the advance itself.
  exact ((h.apply u member).settle hnumber now).raise

/-- The number of a new change is the one after the last, or 1. -/
theorem begun (h : t.Room (n + 1)) (operations : List Operation) : (t.begun operations).Room n := by
  have hnumber : t.nextChangeId + n < UInt64.size := by
    unfold nextChangeId
    cases hlast : t.lastChange with
    | none =>
        have hroom := h.version
        simp only [Option.map_none, Option.getD_none]
        omega
    | some c =>
        have hroom := h.lastChange c hlast
        simp only [Option.map_some, Option.getD_some]
        omega
  refine ⟨h.raise.version, h.raise.members, ?_, h.raise.lastChange⟩
  simpa [Topology.begun, PendingChange.start] using hnumber

theorem cancelChange (h : t.Room (n + 1)) (now : Int) : (t.cancelChange now).Room n := by
  unfold Topology.cancelChange
  split
  · next c hc =>
      refine ⟨h.raise.version, h.raise.members, by simp, ?_⟩
      simpa using (h.mono (Nat.le_succ n)).pending c hc
  · exact h.mono (Nat.le_succ n)

end Room

/-! ## Versions in 64 bits -/

/-- The version as it is kept. -/
def version64 (t : Topology) : UInt64 := .ofNat t.version

theorem toNat_version64 (h : t.version < UInt64.size) : t.version64.toNat = t.version :=
  UInt64.toNat_ofNat_of_lt' h

theorem version64_lt_iff (h : t.version < UInt64.size) (h' : t'.version < UInt64.size) :
    t.version64 < t'.version64 ↔ t.version < t'.version := by
  rw [UInt64.lt_iff_toNat_lt, toNat_version64 h, toNat_version64 h']

theorem version64_le_iff (h : t.version < UInt64.size) (h' : t'.version < UInt64.size) :
    t.version64 ≤ t'.version64 ↔ t.version ≤ t'.version := by
  rw [UInt64.le_iff_toNat_le, toNat_version64 h, toNat_version64 h']

/-- The highest version of 64 bits has no higher one after it. -/
theorem version64_updateMember_of_full (full : t.version + 1 = UInt64.size)
    (f : Option Member → Option Member) : (t.updateMember id f).version64 = 0 := by
  rw [version64, version_updateMember, full]
  rfl

end Topology

end ReplicaCluster
