import ReplicaCluster.Node
import ReplicaCluster.Proofs.Store.Persistence

/-!
# A store on a disk serves as one in memory does

A store in memory holds the topology itself.  A store on a disk writes it down at every revision,
reads it again at every call, starts with nothing on the disk, and may be closed and opened in
between.  Callers cannot tell the two apart (`disk_refines_memory`).

The simulation relation is `Mirrors`: the disk is read as what the memory holds.  It lasts as long
as the numbers of all topologies that the memory comes to hold have room on the disk.
-/

namespace ReplicaCluster

open Wire

theorem Topology.fits_uninitialized : uninitialized.Fits := by decide

namespace Store

/-- What happens to a store: the two calls that it serves, and being closed and opened again. -/
inductive Access
  | read
  | update (revise : Revision)
  | reopen

namespace Access

/-- Whether someone waits for an answer. -/
def isCall : Access → Bool
  | .read | .update _ => true
  | .reopen => false

end Access

/-- A store that was closed and opened again.  Nothing outlives this but the bytes on the disk. -/
def reopened : Store → Store
  | .memory _ => .memory .uninitialized
  | .disk bytes => .disk bytes

/-- Carries out an access, and answers it if it is a call. -/
def serve (s : Store) : Access → Option (Except Failure Topology) × Store
  | .read => (some s.topology, s)
  | .update revise =>
      let (answer, s) := s.update revise
      (some answer, s)
  | .reopen => (none, s.reopened)

/-- Carries out accesses one after another: the answers, and the store that is left. -/
def serveAll (s : Store) : List Access → List (Except Failure Topology) × Store
  | [] => ([], s)
  | a :: rest =>
      let (answer, s) := s.serve a
      let (answers, s) := s.serveAll rest
      (answer.toList ++ answers, s)

/-- The topologies that a store holds in turn, one after each access. -/
def held (s : Store) : List Access → List Topology
  | [] => []
  | a :: rest =>
      let (_, s) := s.serve a
      s.topology.toOption.toList ++ s.held rest

@[simp]
theorem mem_held_cons {s : Store} {a : Access} {rest : List Access} {t : Topology} :
    t ∈ s.held (a :: rest) ↔ (s.serve a).2.topology = .ok t ∨ t ∈ (s.serve a).2.held rest := by
  cases h : (s.serve a).2.topology with
  | error e => simp [held, h, Except.toOption]
  | ok found => simp [held, h, Except.toOption, eq_comm]

/-! ## The simulation -/

/-- A disk from which is read what a memory holds. -/
inductive Mirrors : Store → Store → Prop
  | intro (bytes : Option Bytes) (t : Topology) (fits : t.Fits)
      (content : (Store.disk bytes).content = .ok t) : Mirrors (.disk bytes) (.memory t)

namespace Mirrors

variable {disk memory : Store}

/-- A disk on which nothing was written is read as an uninitialized topology. -/
theorem empty : Mirrors (.disk none) (.memory .uninitialized) :=
  .intro none .uninitialized Topology.fits_uninitialized rfl

theorem reopen (h : Mirrors disk memory) : Mirrors disk.reopened memory := by
  cases h with
  | intro bytes t fits content => exact .intro bytes t fits content

theorem write (h : Mirrors disk memory) {t : Topology} (fits : t.Fits) :
    Mirrors (disk.write t) (memory.write t) := by
  cases h with
  | intro bytes => exact .intro (some t.persist) t fits (content_write fits (.disk bytes))

/-- Both are read as the topology that the memory holds. -/
theorem exists_topology (h : Mirrors disk memory) :
    ∃ t : Topology, t.Fits ∧ memory = .memory t ∧ disk.topology = .ok t ∧
      memory.topology = .ok t := by
  cases h with
  | intro bytes t fits content =>
      exact ⟨t, fits, rfl, topology_of_content content, topology_of_content rfl⟩

theorem update (h : Mirrors disk memory) {revise : Revision}
    (fits : ∀ t, (memory.update revise).2.topology = .ok t → t.Fits) :
    (disk.update revise).1 = (memory.update revise).1 ∧
      Mirrors (disk.update revise).2 (memory.update revise).2 := by
  rcases h.exists_topology with ⟨t, -, rfl, hdisk, hmemory⟩
  -- The revision is of the same topology on both, so it comes to the same.
  cases hrevise : revise t with
  | error e =>
      simpa [update_of_error hdisk hrevise, update_of_error hmemory hrevise] using h
  | ok t' =>
      rw [update_of_ok hmemory hrevise] at fits
      have hwritten := h.write (fits t' rfl)
      simpa [update_of_ok hdisk hrevise, update_of_ok hmemory hrevise] using hwritten

/-- The step of the simulation: a call is answered alike, and the disk still mirrors the memory. -/
theorem serve (h : Mirrors disk memory) {a : Access} (hcall : a.isCall = true)
    (fits : ∀ t, (memory.serve a).2.topology = .ok t → t.Fits) :
    (disk.serve a).1 = (memory.serve a).1 ∧ Mirrors (disk.serve a).2 (memory.serve a).2 := by
  cases a with
  | read =>
      rcases h.exists_topology with ⟨t, -, -, hdisk, hmemory⟩
      exact ⟨congrArg some (hdisk.trans hmemory.symm), h⟩
  | update revise =>
      rcases h.update fits with ⟨hanswer, hmirrors⟩
      exact ⟨congrArg some hanswer, hmirrors⟩
  | reopen => simp [Access.isCall] at hcall

/-- The run of the simulation: the disk may be closed and opened anywhere, the memory goes on. -/
theorem serveAll {accesses : List Access} :
    ∀ {disk memory : Store}, Mirrors disk memory →
      (∀ t ∈ memory.held (accesses.filter (·.isCall)), t.Fits) →
      (disk.serveAll accesses).1 = (memory.serveAll (accesses.filter (·.isCall))).1 ∧
        Mirrors (disk.serveAll accesses).2 (memory.serveAll (accesses.filter (·.isCall))).2 := by
  -- By induction on the accesses, for every disk and every memory that it mirrors by then.
  induction accesses with
  | nil =>
      intro disk memory h _
      exact ⟨rfl, h⟩
  | cons a rest ih =>
      intro disk memory h fits
      cases hcall : a.isCall with
      | true =>
          rw [List.filter_cons_of_pos hcall] at fits ⊢
          rcases h.serve hcall fun t ht => fits t (mem_held_cons.2 (Or.inl ht)) with
            ⟨hanswer, hmirrors⟩
          rcases ih hmirrors fun t ht => fits t (mem_held_cons.2 (Or.inr ht)) with
            ⟨hanswers, hmirrors⟩
          refine ⟨?_, hmirrors⟩
          simp [Store.serveAll, hanswer, hanswers]
      | false =>
          -- The disk is closed and opened; the memory takes no part in that.
          rw [List.filter_cons_of_neg (by simp [hcall])] at fits ⊢
          cases a with
          | reopen => simpa [Store.serveAll, Store.serve] using ih h.reopen fits
          | read => simp [Access.isCall] at hcall
          | update revise => simp [Access.isCall] at hcall

end Mirrors

/-- A store on a disk that starts empty, and may be closed and opened at any point, answers every
call as a store in memory does that starts uninitialized, if the numbers of the topologies that this
one comes to hold have room on the disk.  Whenever the calls end, both hold the same topology, and a
revision that fails on it changes neither of them. -/
theorem disk_refines_memory (accesses : List Access)
    (fits : ∀ t ∈ (Store.memory .uninitialized).held (accesses.filter (·.isCall)), t.Fits) :
    let disk := (Store.disk none).serveAll accesses
    let memory := (Store.memory .uninitialized).serveAll (accesses.filter (·.isCall))
    disk.1 = memory.1 ∧
      ∃ t : Topology, disk.2.topology = .ok t ∧ memory.2 = .memory t ∧
        ∀ (revise : Revision) (e : Failure), revise t = .error e →
          disk.2.update revise = (.error e, disk.2) ∧
            memory.2.update revise = (.error e, memory.2) := by
  intro disk memory
  rcases Mirrors.empty.serveAll fits with ⟨hanswers, hmirrors⟩
  rcases hmirrors.exists_topology with ⟨t, -, hholds, hdisk, hmemory⟩
  refine ⟨hanswers, t, hdisk, hholds, ?_⟩
  intro revise e hrevise
  exact ⟨update_of_error hdisk hrevise, update_of_error hmemory hrevise⟩

/-- A disk that is closed and opened between calls: a cluster is founded on it, a change is begun,
refused a second time, advanced and cancelled, and the members are dropped. -/
theorem disk_refines_memory_reopened :
    let found : Revision := Node.bootstrap ["1", "2", "3"] 2 2
    let start : Revision :=
      fun t => t.startChange [⟨"4", .joinCluster⟩, ⟨"4", .joinPartition 1 1⟩]
    let advance : Revision := fun t => t.advanceChange 5 "4" .memberActive
    let cancel : Revision := fun t => .ok (t.cancelChange 7)
    let clear : Revision := fun t => .ok { t with members := ∅ }
    let accesses : List Access :=
      [.reopen, .read, .update advance, .update found, .reopen, .update found, .update start,
        .reopen, .update start, .update advance, .update cancel, .reopen, .update clear, .read]
    let disk := (Store.disk none).serveAll accesses
    let memory := (Store.memory .uninitialized).serveAll (accesses.filter (·.isCall))
    (∀ t ∈ (Store.memory .uninitialized).held (accesses.filter (·.isCall)), t.Fits) ∧
      disk.1 = memory.1 ∧
      ∃ t : Topology, disk.2.topology = .ok t ∧ memory.2 = .memory t ∧ t.version = 8 ∧
        t.lastChange.map (·.operations) = some [⟨"4", .joinCluster⟩] := by
  intro found start advance cancel clear accesses disk memory
  have fits : ∀ t ∈ (Store.memory .uninitialized).held (accesses.filter (·.isCall)), t.Fits := by
    decide +kernel
  have hviews : memory.2.topology.toOption.map
      (fun t => (t.version, t.lastChange.map (·.operations))) =
        some (8, some [⟨"4", .joinCluster⟩]) := by
    decide +kernel
  rcases disk_refines_memory accesses fits with ⟨hanswers, t, hdisk, hmemory, -⟩
  have hparts : t.version = 8 ∧ t.lastChange.map (·.operations) = some [⟨"4", .joinCluster⟩] := by
    have hholds : memory.2.topology = .ok t := congrArg Store.topology hmemory
    simpa [hholds, Except.toOption] using hviews
  exact ⟨fits, hanswers, t, hdisk, hmemory, hparts⟩

end Store

end ReplicaCluster
