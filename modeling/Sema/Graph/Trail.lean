/-!
Walks along a partial successor function. A trail lists the vertices met from a start on, and
stops where the successor is missing or was met before, so it is finite on every graph.
-/

namespace Sema.Graph

variable {α : Type} [DecidableEq α]

/-- The vertices met from `v` on that are not in `seen`, at most `fuel` of them. -/
def trailFrom (next : α → Option α) : Nat → List α → α → List α
  | 0, _, _ => []
  | fuel + 1, seen, v =>
    if v ∈ seen then []
    else v :: match next v with
      | some w => trailFrom next fuel (v :: seen) w
      | none => []

/-- The trail of `v` in a graph of `count` vertices. Its vertices are distinct, so it has no more
than `count` of them, and one more when `v` itself lies outside the graph. -/
def trail (next : α → Option α) (count : Nat) (v : α) : List α :=
  trailFrom next (count + 1) [] v

end Sema.Graph
