import Std.Data.ExtTreeMap
import Std.Data.ExtTreeSet

/-!
# SortedMap — finite maps listed in key order

Maps are balanced trees up to their shape: two maps with the same entries are equal, which is
what a comparison of whole cluster states needs.  Every listing of a map is in ascending key
order.  Keys are compared with `compare`; for strings that is the order of their code points.
-/

namespace ReplicaCluster

/-- A finite map from `κ` to `α`, listed in ascending key order. -/
abbrev SortedMap (κ α : Type) [Ord κ] : Type := Std.ExtTreeMap κ α compare

/-- The members of a list in ascending order, each of them once. -/
def sortDistinct {κ : Type} [Ord κ] [Std.TransOrd κ] (xs : List κ) : List κ :=
  (Std.ExtTreeSet.ofList xs compare).toList

end ReplicaCluster
