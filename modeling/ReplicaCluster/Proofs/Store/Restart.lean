import ReplicaCluster.Proofs.Interleaving.Scene
import ReplicaCluster.Proofs.Store.Refinement
import ReplicaCluster.Proofs.Topology.Bootstrap

/-!
# Restarts

A node works on a disk: it bootstraps, serves management requests and drives changes, all of them
as processes whose atomic steps take turns.  It may be stopped between any two of these steps, and
starts again with what is on the disk and with any configuration.

`Site.run` carries out what happens at a node, in any order.  Whenever a node starts after that, it
finds the topology that was stored and leaves it to the byte; only a disk without a cluster is given
the first one (`Node.restarts_disturb_nothing`).
-/

namespace ReplicaCluster

open Wire

/-! ## The first topology has room on the disk -/

namespace Placement

variable {members : List MemberId} {partitionCount replicationFactor p k : Nat} {id : MemberId}
  {placement : Placement}

theorem size_roundRobin_le :
    (roundRobin members partitionCount replicationFactor).size ≤ partitionCount := by
  unfold roundRobin
  split
  · simp
  · exact Std.ExtTreeMap.size_ofList_le.trans_eq (by simp)

/-- No priority is above the number of members, and no partition above the last one. -/
theorem le_of_priority?_roundRobin (distinct : members.Nodup)
    (h : (roundRobin members partitionCount replicationFactor).priority? p id = some k) :
    p ≤ partitionCount ∧ k ≤ members.length := by
  have hnonempty : members ≠ [] := by
    rintro rfl
    simp [priority?, roundRobin] at h
  rw [priority?, getElem?_roundRobin hnonempty] at h
  split at h
  · next hp =>
      have hcount : min replicationFactor members.length ≤ members.toArray.size := by simp
      have hring : 0 < members.toArray.size := by simpa [List.length_pos_iff] using hnonempty
      rw [Option.bind_some,
        Priorities.getElem?_descending_iff (nodup_successors (by simpa using distinct) hcount)] at h
      rcases h with ⟨i, -, rfl⟩
      rw [length_successors hring]
      exact ⟨hp.2, by omega⟩
  · simp at h

/-- What a member is given of a placement has room on the disk if the numbers in it have. -/
theorem mapped_share (size : Nat64 placement.size)
    (fits : ∀ p k, placement.priority? p id = some k → Nat32 p ∧ Nat32 k) :
    Mapped Nat32 Replica.Fits
      (placement.filterMap fun _ priorities => priorities[id]?.map Replica.active) := by
  refine ⟨?_, ?_⟩
  · rw [Std.ExtTreeMap.length_toList]
    exact Nat.lt_of_le_of_lt Std.ExtTreeMap.size_filterMap_le_size size
  · rintro ⟨p, r⟩ hr
    rw [Std.ExtTreeMap.mem_toList_iff_getElem?_eq_some, Std.ExtTreeMap.getElem?_filterMap'] at hr
    rcases Option.bind_eq_some_iff.1 hr with ⟨hosts, hhosts, hpriority⟩
    rcases Option.map_eq_some_iff.1 hpriority with ⟨k, hk, rfl⟩
    exact fits p k (by rw [priority?, hhosts, Option.bind_some, hk])

end Placement

namespace Topology

variable {members : List MemberId} {partitionCount replicationFactor : Nat}

/-- Each new member makes one more version, and ends no change. -/
theorem version_foldl_addMember (hosted : MemberId → SortedMap PartitionId Replica)
    (members : List MemberId) :
    ∀ t : Topology,
      (members.foldl (fun t id => t.addMember id (.active (hosted id))) t).version =
          t.version + members.length ∧
        (members.foldl (fun t id => t.addMember id (.active (hosted id))) t).lastChange =
          t.lastChange := by
  induction members with
  | nil =>
      intro t
      exact ⟨rfl, rfl⟩
  | cons first rest ih =>
      intro t
      rcases ih (t.addMember first (.active (hosted first))) with ⟨hversion, hlast⟩
      refine ⟨?_, hlast⟩
      rw [List.foldl_cons, hversion, List.length_cons]
      simp only [addMember, updateMember]
      omega

theorem version_founded :
    (founded members partitionCount replicationFactor).version = 1 + members.dedup.length ∧
      (founded members partitionCount replicationFactor).lastChange = none := by
  rw [founded, (version_foldl_addMember _ _ _).1, (version_foldl_addMember _ _ _).2,
    length_sortDistinct]
  exact ⟨rfl, rfl⟩

theorem fits_founded (names : ∀ id ∈ members, Text id) (few : Nat32 members.dedup.length)
    (partitions : Nat32 partitionCount) :
    (founded members partitionCount replicationFactor).Fits := by
  unfold Nat32 at few partitions
  refine ⟨?_, ⟨?_, ?_⟩, ?_, ?_⟩
  · rw [version_founded.1]
    unfold Nat64
    omega
  · rw [Std.ExtTreeMap.length_toList, ← Std.ExtTreeMap.length_keys, keys_founded,
      length_sortDistinct]
    unfold Nat64
    omega
  · rintro ⟨id, m⟩ hm
    rw [Std.ExtTreeMap.mem_toList_iff_getElem?_eq_some, ← member?, member?_founded,
      Option.ite_none_right_eq_some] at hm
    rcases hm with ⟨hid, hm⟩
    obtain rfl := Option.some.inj hm
    refine ⟨names id hid, (by decide : Nat64 0), Placement.mapped_share ?_ ?_⟩
    · exact Placement.size_roundRobin_le.trans_lt (by omega)
    · intro p k hk
      rcases Placement.le_of_priority?_roundRobin (nodup_sortDistinct members) hk with ⟨hp, hk⟩
      rw [length_sortDistinct] at hk
      exact ⟨hp.trans_lt partitions, hk.trans_lt few⟩
  · simp [pending_founded.2]
  · simp [version_founded.2]

end Topology

/-! ## Starting -/

namespace Node

/-- What the configuration of a node says about the cluster.  The names and the numbers in it have
room on a disk. -/
structure Configuration where
  members : List MemberId
  partitionCount : Nat
  replicationFactor : Nat
  names : ∀ id ∈ members, Text id
  few : Nat32 members.dedup.length
  partitions : Nat32 partitionCount

namespace Configuration

/-- The first topology of the cluster, if there can be one. -/
def found (c : Configuration) : Except Failure Topology :=
  Topology.bootstrap c.members c.partitionCount c.replicationFactor

/-- The revision that a node with this configuration makes when it starts. -/
def bootstrap (c : Configuration) : Revision :=
  Node.bootstrap c.members c.partitionCount c.replicationFactor

variable {c : Configuration} {t t' : Topology}

theorem of_found (h : c.found = .ok t) : t.Fits ∧ t.initialized = true := by
  rcases Topology.bootstrap_eq_ok_iff.1 h with ⟨-, rfl⟩
  exact ⟨Topology.fits_founded c.names c.few c.partitions, Topology.pending_founded.1⟩

theorem bootstrap_of_initialized (c : Configuration) (h : t.initialized = true) :
    c.bootstrap t = .ok t := by
  simp [bootstrap, Node.bootstrap, h]

theorem bootstrap_of_uninitialized (c : Configuration) (h : t.initialized = false) :
    c.bootstrap t = c.found := by
  simp [bootstrap, Node.bootstrap, h, found]

theorem fits_bootstrap (fits : t.Fits) (h : c.bootstrap t = .ok t') : t'.Fits := by
  cases hinitialized : t.initialized with
  | true =>
      rw [c.bootstrap_of_initialized hinitialized, Except.ok.injEq] at h
      exact h ▸ fits
  | false =>
      rw [c.bootstrap_of_uninitialized hinitialized] at h
      exact (of_found h).1

end Configuration

/-- A node starts: it opens its disk and bootstraps. -/
def start (c : Configuration) (disk : Store) : Except Failure Topology × Store :=
  disk.reopened.update c.bootstrap

/-- A node starts again and again, with one configuration after the other. -/
def startAll (disk : Store) : List Configuration → List (Except Failure Topology) × Store
  | [] => ([], disk)
  | c :: rest =>
      let (answer, disk) := start c disk
      let (answers, disk) := startAll disk rest
      (answer :: answers, disk)

/-! ## What happens at a node -/

open Interleaving (Party Result Task)

/-- A node with its disk, and what is left to do of the task that each party is busy with. -/
structure Site where
  disk : Store
  busy : Party → Option (Process Result)

/-- Something that happens at a node. -/
inductive Happening
  /-- A party that is free takes up a task. -/
  | begin (party : Party) (task : Task) (now : Int)
  /-- A party takes the next atomic step of its task. -/
  | go (party : Party)
  /-- A party's task ends before its time. -/
  | stop (party : Party)
  | bootstrap (c : Configuration)
  /-- The node is stopped, whatever it is busy with, and opens its disk again. -/
  | reopen

namespace Site

/-- A node with an empty disk. -/
def empty : Site := ⟨.disk none, fun _ => none⟩

def set (s : Site) (i : Party) (rest : Option (Process Result)) : Site :=
  { s with busy := fun j => if j = i then rest else s.busy j }

/-- The next atomic step of a task.  Whatever fails ends the task, and so does a number that grows
beyond its type. -/
def proceed (s : Site) (i : Party) : Process Result → Site
  | .done _ | .fail _ => s.set i none
  | .read next =>
      match s.disk.topology with
      | .ok t => s.set i (some (next t))
      | .error _ => s.set i none
  | .update revise next =>
      match s.disk.update revise with
      | (.ok t, disk) => if t.Fits then { s.set i (some (next t)) with disk } else s.set i none
      | (.error _, _) => s.set i none
  | .call _ next => s.set i (some next)

def next (s : Site) : Happening → Site
  | .begin i task now =>
      match s.busy i with
      | none => s.set i (some (task.process now))
      | some _ => s
  | .go i =>
      match s.busy i with
      | none => s
      | some rest => s.proceed i rest
  | .stop i => s.set i none
  | .bootstrap c => { s with disk := (s.disk.update c.bootstrap).2 }
  | .reopen => ⟨s.disk.reopened, fun _ => none⟩

def run (s : Site) (happenings : List Happening) : Site := happenings.foldl next s

end Site

/-! ## What the disk holds -/

/-- A disk that is empty, or holds the very bytes that a topology is written as. -/
def Sound (disk : Store) : Prop :=
  disk = .disk none ∨ ∃ t : Topology, t.Fits ∧ disk = .disk (some t.persist)

namespace Sound

variable {disk : Store} {t : Topology} {revise : Revision}

theorem empty : Sound (.disk none) := .inl rfl

theorem reopened (h : Sound disk) : disk.reopened = disk := by
  rcases h with rfl | ⟨t, -, rfl⟩ <;> rfl

theorem write (h : Sound disk) (fits : t.Fits) : Sound (disk.write t) := by
  rcases h with rfl | ⟨t', -, rfl⟩
  · exact .inr ⟨t, fits, rfl⟩
  · exact .inr ⟨t, fits, rfl⟩

/-- A sound disk can be read.  To write an initialized topology in its own place changes nothing,
since its form on the disk is the one in which it is written. -/
theorem exists_topology (h : Sound disk) :
    ∃ t : Topology, t.Fits ∧ disk.topology = .ok t ∧
      (t.initialized = true → disk.write t = disk) := by
  rcases h with rfl | ⟨t, fits, rfl⟩
  · refine ⟨.uninitialized, Topology.fits_uninitialized, rfl, ?_⟩
    intro h
    simp [Topology.uninitialized] at h
  · exact ⟨t, fits, Store.topology_of_content (Topology.restore_persist fits), fun _ => rfl⟩

theorem update (h : Sound disk)
    (fits : ∀ t t' : Topology, t.Fits → revise t = .ok t' → t'.Fits) :
    Sound (disk.update revise).2 := by
  rcases h.exists_topology with ⟨t, hfits, htopology, -⟩
  cases hrevise : revise t with
  | error e => rwa [Store.update_of_error htopology hrevise]
  | ok t' =>
      rw [Store.update_of_ok htopology hrevise]
      exact h.write (fits t t' hfits hrevise)

end Sound

namespace Site

variable {s : Site} {i : Party}

/-- The step of the invariant, for one atomic step of a task. -/
theorem sound_proceed (h : Sound s.disk) (rest : Process Result) :
    Sound (s.proceed i rest).disk := by
  cases rest with
  | done result => exact h
  | fail e => exact h
  | call c next => exact h
  | read next =>
      simp only [proceed]
      split <;> exact h
  | update revise next =>
      rcases Store.update_cases s.disk revise with ⟨e, he⟩ | ⟨found, t, -, -, ht⟩
      · simp only [proceed, he]
        exact h
      · simp only [proceed, ht]
        split
        · next fits => exact h.write fits
        · exact h

theorem sound_next (h : Sound s.disk) (happening : Happening) : Sound (s.next happening).disk := by
  cases happening with
  | begin i task now =>
      simp only [next]
      split <;> exact h
  | go i =>
      simp only [next]
      split
      · exact h
      · exact sound_proceed h _
  | stop i => exact h
  | bootstrap c => exact h.update fun t t' fits hfound => c.fits_bootstrap fits hfound
  | reopen =>
      show Sound s.disk.reopened
      rwa [h.reopened]

theorem sound_run (happenings : List Happening) :
    ∀ s : Site, Sound s.disk → Sound (s.run happenings).disk := by
  induction happenings with
  | nil => exact fun s h => h
  | cons happening rest ih => exact fun s h => ih _ (sound_next h happening)

end Site

/-! ## Starting on it -/

variable {disk : Store} {t : Topology} {c : Configuration}

theorem start_of_initialized (sound : Sound disk) (holds : disk.topology = .ok t)
    (initialized : t.initialized = true) (c : Configuration) : start c disk = (.ok t, disk) := by
  rcases sound.exists_topology with ⟨t', -, holds', hkept⟩
  obtain rfl : t' = t := Except.ok.inj (holds'.symm.trans holds)
  rw [start, sound.reopened, Store.update_of_ok holds (c.bootstrap_of_initialized initialized),
    hkept initialized]

theorem start_of_uninitialized (sound : Sound disk) (holds : disk.topology = .ok t)
    (uninitialized : t.initialized = false) (c : Configuration) :
    (∃ first, c.found = .ok first ∧ first.initialized = true ∧
        start c disk = (.ok first, disk.write first) ∧
        (disk.write first).topology = .ok first) ∨
      ∃ e, c.found = .error e ∧ start c disk = (.error e, disk) := by
  rw [start, sound.reopened]
  cases hfound : c.found with
  | ok first =>
      rcases Configuration.of_found hfound with ⟨fits, hinitialized⟩
      refine .inl ⟨first, rfl, hinitialized, ?_, ?_⟩
      · exact Store.update_of_ok holds ((c.bootstrap_of_uninitialized uninitialized).trans hfound)
      · exact Store.topology_of_content (Store.content_write fits disk)
  | error e =>
      refine .inr ⟨e, rfl, ?_⟩
      exact Store.update_of_error holds ((c.bootstrap_of_uninitialized uninitialized).trans hfound)

/-- After any start that succeeds the disk holds an initialized topology, the one that was
answered. -/
theorem holds_of_start (sound : Sound disk) (h : (start c disk).1 = .ok t) :
    Sound (start c disk).2 ∧ (start c disk).2.topology = .ok t ∧ t.initialized = true := by
  rcases sound.exists_topology with ⟨t', -, holds, -⟩
  cases hinitialized : t'.initialized with
  | true =>
      rw [start_of_initialized sound holds hinitialized] at h ⊢
      obtain rfl := Except.ok.inj h
      exact ⟨sound, holds, hinitialized⟩
  | false =>
      rcases start_of_uninitialized sound holds hinitialized c with
        ⟨first, hfound, hfirst, hstart, hholds⟩ | ⟨e, -, hstart⟩
      · rw [hstart] at h ⊢
        obtain rfl := Except.ok.inj h
        exact ⟨sound.write (Configuration.of_found hfound).1, hholds, hfirst⟩
      · simp [hstart] at h

/-- A start that fails leaves the disk as it is. -/
theorem start_of_error {e : Failure} (sound : Sound disk) (h : (start c disk).1 = .error e) :
    start c disk = (.error e, disk) := by
  rcases sound.exists_topology with ⟨t, -, holds, -⟩
  cases hinitialized : t.initialized with
  | true => simp [start_of_initialized sound holds hinitialized] at h
  | false =>
      rcases start_of_uninitialized sound holds hinitialized c with
        ⟨first, -, -, hstart, -⟩ | ⟨e', -, hstart⟩
      · simp [hstart] at h
      · rw [hstart] at h ⊢
        exact congrArg (·, disk) h

theorem startAll_of_initialized (sound : Sound disk) (holds : disk.topology = .ok t)
    (initialized : t.initialized = true) (configurations : List Configuration) :
    startAll disk configurations = (.replicate configurations.length (.ok t), disk) := by
  induction configurations with
  | nil => rfl
  | cons c rest ih =>
      simp [startAll, start_of_initialized sound holds initialized, ih, List.replicate_succ]

/-- Starts that fail and a first one that succeeds: what comes after them finds what that one has
stored. -/
theorem startAll_of_first (sound : Sound disk) (after : List Configuration)
    (h : (start c disk).1 = .ok t) (before : List Configuration)
    (failing : ∀ b ∈ before, ∃ e, (start b disk).1 = .error e) :
    startAll disk (before ++ c :: after) =
      ((before.map fun b => (start b disk).1) ++ .replicate (after.length + 1) (.ok t),
        (start c disk).2) := by
  induction before with
  | nil =>
      rcases holds_of_start sound h with ⟨hsound, hholds, hinitialized⟩
      simp [startAll, startAll_of_initialized hsound hholds hinitialized, h, List.replicate_succ]
  | cons b rest ih =>
      rw [List.forall_mem_cons] at failing
      rcases failing.1 with ⟨e, he⟩
      have hstart := start_of_error sound he
      simp [startAll, hstart, ih failing.2]

/-- Whatever has happened at a node since its disk was empty, with restarts between any two steps of
any tasks, the disk can be read.

* If it holds a cluster, a node that starts finds the very topology that is stored, whatever its
  configuration says, and not a byte of the disk changes.
* If it holds none, a node that starts stores the first topology of its configuration, which is what
  it reads from then on; or that cannot be made, and the disk stays as it is.
* However often nodes start, what comes of it is what comes of the first start that succeeds. -/
theorem restarts_disturb_nothing (happenings : List Happening) :
    ∃ (disk : Store) (t : Topology),
      (Site.empty.run happenings).disk = disk ∧ disk.topology = .ok t ∧
      (t.initialized = true → ∀ c, start c disk = (.ok t, disk)) ∧
      (t.initialized = false → ∀ c,
        (∃ first, c.found = .ok first ∧ first.initialized = true ∧
          start c disk = (.ok first, disk.write first) ∧
          (disk.write first).topology = .ok first) ∨
        ∃ e, c.found = .error e ∧ start c disk = (.error e, disk)) ∧
      ∀ (before after : List Configuration) (c : Configuration) (t' : Topology),
        (∀ b ∈ before, ∃ e, (start b disk).1 = .error e) → (start c disk).1 = .ok t' →
        startAll disk (before ++ c :: after) =
          ((before.map fun b => (start b disk).1) ++ .replicate (after.length + 1) (.ok t'),
            (start c disk).2) := by
  have sound := Site.sound_run happenings Site.empty Sound.empty
  rcases sound.exists_topology with ⟨t, -, holds, -⟩
  refine ⟨_, t, rfl, holds, ?_, ?_, ?_⟩
  · exact fun initialized c => start_of_initialized sound holds initialized c
  · exact fun uninitialized c => start_of_uninitialized sound holds uninitialized c
  · exact fun before after c t' failing first => startAll_of_first sound after first before failing

/-- One member founds a cluster, and another one is added.  The node is stopped when the driver has
noted that the newcomer is joining, before it could call anyone. -/
def midway : List Happening :=
  [.bootstrap ⟨["a"], 2, 1, by decide, by decide, by decide⟩,
    .begin (.coordinator 0) (.manage {} (.addMembers ["b"] false)) 0,
    .go (.coordinator 0), .go (.coordinator 0),
    .begin .driver (.advance {}) 0, .go .driver, .go .driver, .reopen]

/-- The node finds the change where it was left.  A node that starts on an empty disk without any
members fails; then it founds a cluster, and keeps it with other members in its configuration. -/
theorem restarts_disturb_nothing_midway :
    let nobody : Configuration := ⟨[], 2, 1, by decide, by decide, by decide⟩
    let alone : Configuration := ⟨["a"], 2, 1, by decide, by decide, by decide⟩
    let others : Configuration := ⟨["x", "y"], 5, 2, by decide, by decide, by decide⟩
    (∃ (disk : Store) (t : Topology),
      (Site.empty.run midway).disk = disk ∧ disk.topology = .ok t ∧
      t.hasPendingChange = true ∧ t.status? "b" = some .joining ∧
      ∀ c, start c disk = (.ok t, disk)) ∧
    (∃ e, (start nobody (.disk none)).1 = .error e) ∧
    ∃ first, (start alone (.disk none)).1 = .ok first ∧
      startAll (.disk none) [nobody, alone, others] =
        ([(start nobody (.disk none)).1, .ok first, .ok first], (start alone (.disk none)).2) := by
  intro nobody alone others
  have hmidway : (Site.empty.run midway).disk.topology.toOption.map
      (fun t => (t.initialized, t.hasPendingChange, t.status? "b")) =
        some (true, true, some .joining) := by
    decide +kernel
  rcases restarts_disturb_nothing midway with ⟨disk, t, hdisk, htopology, hfound, -⟩
  rcases restarts_disturb_nothing [] with ⟨_, _, rfl, -, -, -, hfirst⟩
  rw [hdisk, htopology] at hmidway
  have hparts : t.initialized = true ∧ t.hasPendingChange = true ∧
      t.status? "b" = some .joining := by
    simpa [Except.toOption] using hmidway
  have hnobody : ∃ e, (start nobody (.disk none)).1 = .error e := ⟨_, rfl⟩
  have halone : (start alone (.disk none)).1 = .ok (Topology.founded ["a"] 2 1) := rfl
  refine ⟨⟨disk, t, hdisk, htopology, hparts.2.1, hparts.2.2, hfound hparts.1⟩, hnobody, _,
    halone, ?_⟩
  exact hfirst [nobody] [others] alone _ (List.forall_mem_singleton.2 hnobody) halone

end Node

end ReplicaCluster
