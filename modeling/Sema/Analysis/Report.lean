import Sema.Analysis.Pass

/-!
Questions about an analysis: the types of nodes and declarations, who shares a slot, and which
expressions were left without a type.
-/

namespace Sema

namespace Context

def displayType? [Access] (c : Context) (n : NodeId) : Option String :=
  (c.nodeType? n).map c.types.display

end Context

namespace Analysis

def displayType? [Access] (a : Analysis) (n : NodeId) : Option String :=
  a.context.displayType? n

/-- The nodes with a slot, in ascending order. -/
def typedNodes (a : Analysis) : List (NodeId × Slot) :=
  (List.range a.program.nextId).filterMap fun n => (a.context.nodeType? n).map (n, ·)

/-- The first node of each slot that nodes hold, in ascending order. -/
def slotLeaders (a : Analysis) : List (NodeId × Slot) :=
  let nodes := a.typedNodes
  nodes.filter fun (n, s) => (nodes.find? fun entry => entry.2 = s).any (·.1 = n)

/-- The groups of nodes that share a slot, ordered by their first nodes. -/
def sharedNodes (a : Analysis) : List (List NodeId) :=
  let nodes := a.typedNodes
  let groups := a.slotLeaders.map fun (_, s) => (nodes.filter (·.2 = s)).map (·.1)
  groups.filter fun group => 2 ≤ group.length

/-- The classes and enums, each at the first node that holds its slot. -/
def nominalNodes [Access] (a : Analysis) : List (NodeId × Shape) :=
  (a.slotLeaders.map fun (n, s) => (n, a.context.types.get s)).filter fun (_, shape) =>
    shape.nominalName?.isSome

/-- The flow graphs, in ascending order of their functions. -/
def flowGraphs (a : Analysis) : List FlowGraph :=
  (List.range a.program.nextId).filterMap a.context.flow?

/-- The member of a declaration that a path of names leads to. -/
def followPath (d : Decl) : List String → Option Decl
  | [] => some d
  | name :: rest =>
    match d with
    | .object c => (c.members.find? fun m => m.name = name).bind fun m => followPath m rest
    | _ => none

/-- The type of a top-level declaration, or of a member when it is written as `Class.member`. -/
def declarationType? [Access] (a : Analysis) (path : String) : Option String :=
  match path.splitOn "." with
  | [] => none
  | first :: rest => do
    let top ← a.program.declarations.find? fun d => d.name = first
    let d ← followPath top rest
    a.displayType? d.node.id

/-- The expressions without a type, in order. -/
def untypedExpressions (a : Analysis) : List Expr :=
  let finder : Visitor (StateM (List Expr)) :=
    { expression := fun e children => do
        if (a.context.nodeType? e.node.id).isNone then modify (· ++ [e])
        children }
  ((finder.visitProgram a.program).run []).2

end Analysis

end Sema
