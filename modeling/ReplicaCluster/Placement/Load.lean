import ReplicaCluster.Placement

/-!
# Load

How many replicas each of a set of members has, and how new replicas go to those that have the
fewest.
-/

namespace ReplicaCluster

/-- The number of replicas that each of a set of members has. -/
abbrev Load := SortedMap MemberId Nat

namespace Load

/-- The load of members without replicas. -/
def idle (members : List MemberId) : Load := .ofList (members.map fun m => (m, 0))

/-- Counts one more replica for a member that the load lists. -/
def increment (load : Load) (member : MemberId) : Load := load.modify member (· + 1)

/-- The load that a placement puts on some members. -/
def ofPlacement (members : List MemberId) (placement : Placement) : Load :=
  placement.values.foldl (fun load hosts => hosts.keys.foldl increment load) (idle members)

/-- The member that gets the next replica of a partition with the given present and chosen
hosts: the one with the fewest replicas, a present host before another one of the same load,
then in the order of the names. -/
def nextHost? (load : Load) (present : Priorities) (chosen : List MemberId) : Option MemberId :=
  let free := load.toList.filter fun e => !chosen.contains e.1
  -- Twice the load leaves room to put present hosts before others of the same load.
  let weight (e : MemberId × Nat) := 2 * e.2 + if present.contains e.1 then 0 else 1
  (lightest? weight free).map (·.1)

/-- Fills up to so many places of one partition, as long as there are members left. -/
def fill (present : Priorities) : Nat → Load → List MemberId → Load × List MemberId
  | 0, load, chosen => (load, chosen)
  | places + 1, load, chosen =>
      match load.nextHost? present chosen with
      | some member => fill present places (load.increment member) (chosen ++ [member])
      | none => (load, chosen)

end Load

end ReplicaCluster
