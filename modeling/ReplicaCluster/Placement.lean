import ReplicaCluster.Member

/-!
# Placements

A placement says which members host each partition, and with which priority.  The members of a
partition are ranked by descending priority, and members of one priority by their names; the
first of them leads the partition.
-/

namespace ReplicaCluster

/-- The hosts of one partition with the priorities of their replicas. -/
abbrev Priorities := SortedMap MemberId Priority

/-- The hosts of every partition. -/
abbrev Placement := SortedMap PartitionId Priorities

/-- The first of the elements with the least weight. -/
def lightest? {α : Type} (weight : α → Nat) : List α → Option α
  | [] => none
  | x :: rest =>
      match lightest? weight rest with
      | some y => if weight y < weight x then some y else some x
      | none => some x

namespace Priorities

/-- Puts an entry before the first one of a lower priority. -/
def insertRanked (e : MemberId × Priority) :
    List (MemberId × Priority) → List (MemberId × Priority)
  | [] => [e]
  | x :: rest => if x.2 ≤ e.2 then e :: x :: rest else x :: insertRanked e rest

/-- The hosts by descending priority; ties are in ascending order of the names. -/
def ranked (p : Priorities) : List MemberId :=
  (p.toList.foldr insertRanked []).map (·.1)

/-- The member that leads the partition. -/
def leader? (p : Priorities) : Option MemberId := p.ranked.head?

/-- Ranks the members as listed: the first of `n` gets priority `n`, the last one gets 1.  Of a
member that is listed twice the later place counts. -/
def descending (members : List MemberId) : Priorities :=
  let count := members.length
  .ofList (members.zipIdx.map fun (m, i) => (m, count - i))

end Priorities

end ReplicaCluster
