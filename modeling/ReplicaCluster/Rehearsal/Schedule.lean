/-!
# Schedules

Events that are due after a number of calls.  At each call the first event whose count has run
down takes effect, and the counts of those that are left go down by one.
-/

namespace ReplicaCluster

/-- Events with the number of calls that pass before each. -/
abbrev Schedule (α : Type) := List (Nat × α)

namespace Schedule

variable {α : Type}

/-- The event that takes effect at this call. -/
def due? (s : Schedule α) : Option α := (s.find? fun e => e.1 = 0).map (·.2)

/-- The schedule after this call. -/
def tick (s : Schedule α) : Schedule α :=
  (s.eraseP fun e => e.1 = 0).map fun e => (e.1 - 1, e.2)

end Schedule

end ReplicaCluster
