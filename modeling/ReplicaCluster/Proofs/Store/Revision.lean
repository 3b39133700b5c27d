import ReplicaCluster.Store

/-!
# What a revision does to a store

A revision is made on what the store holds.  It puts its result in place of that, or it fails and
leaves the store, to the byte, as it was.
-/

namespace ReplicaCluster

namespace Store

variable {s : Store} {t t' : Topology} {revise : Revision} {e : Failure}

theorem topology_of_content (h : s.content = .ok t) : s.topology = .ok t :=
  congrArg (Except.mapError Cause.failure) h

theorem update_of_ok (h : s.topology = .ok t) (hrevise : revise t = .ok t') :
    s.update revise = (.ok t', s.write t') := by
  simp [update, h, Except.bind, hrevise]

theorem update_of_error (h : s.topology = .ok t) (hrevise : revise t = .error e) :
    s.update revise = (.error e, s) := by
  simp [update, h, Except.bind, hrevise]

/-- A store that cannot be read cannot be revised, not even by revisions that do not look at what
they find. -/
theorem update_of_topology_eq_error (h : s.topology = .error e) (revise : Revision) :
    s.update revise = (.error e, s) := by
  simp [update, h, Except.bind]

theorem update_cases (s : Store) (revise : Revision) :
    (∃ e, s.update revise = (.error e, s)) ∨
      ∃ found t, s.topology = .ok found ∧ revise found = .ok t ∧
        s.update revise = (.ok t, s.write t) := by
  cases h : s.topology with
  | error e => exact Or.inl ⟨e, update_of_topology_eq_error h revise⟩
  | ok found =>
      cases hrevise : revise found with
      | error e => exact Or.inl ⟨e, update_of_error h hrevise⟩
      | ok t => exact Or.inr ⟨found, t, rfl, hrevise, update_of_ok h hrevise⟩

end Store

end ReplicaCluster
