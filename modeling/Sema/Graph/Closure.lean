/-!
All vertices that can be reached in a finite graph whose vertices are numbers.
-/

namespace Sema.Graph

/-- Takes vertices off the pending list, and puts the successors of each new one in front. -/
def explore (next : Nat → List Nat) : Nat → List Nat → List Nat → List Nat
  | 0, seen, _ => seen
  | _ + 1, seen, [] => seen
  | fuel + 1, seen, v :: pending =>
    if v ∈ seen then explore next fuel seen pending
    else explore next fuel (v :: seen) (next v ++ pending)

/-- The number of edges that leave the vertices below `count`. -/
def edgeCount (next : Nat → List Nat) (count : Nat) : Nat :=
  ((List.range count).flatMap next).length

/-- The vertices reachable from `v` in a graph of `count` vertices, `v` included. Every vertex
enters the pending list once for `v` and once for each edge, which bounds the search. -/
def reachable (next : Nat → List Nat) (count : Nat) (v : Nat) : List Nat :=
  explore next (edgeCount next count + 2) [] [v]

end Sema.Graph
