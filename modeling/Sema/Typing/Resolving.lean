import Sema.Scope.Mode
import Sema.Syntax.Tree

/-!
The state of the second walk. Variables of the program and of classes are resolved on demand, so
the walk remembers which variables are being resolved and which are done, and a plan tells where
each variable belongs.
-/

namespace Sema

structure Resolving extends Context where
  /-- The variables whose resolution is under way, innermost first. -/
  resolving : List NodeId := []
  resolved : List NodeId := []
  deriving DecidableEq, Repr

/-- Steps of the second walk. -/
abbrev Resolve := Action Resolving

namespace Resolve

variable {α : Type}

/-- A step on the context alone, as a step of the walk. -/
def ofCheck (x : Check α) : Resolve α :=
  ExceptT.mk do
    let s ← get
    let (result, c) := x.run.run s.toContext
    set { s with toContext := c }
    return result

instance : MonadLiftT Check Resolve := ⟨ofCheck⟩

/-- A whole walk, as a step on the context. -/
def toCheck (x : Resolve α) : Check α :=
  ExceptT.mk do
    let (result, s) := x.run.run { toContext := ← get }
    set s.toContext
    return result

/-- Runs a step inside the scope of a node. -/
def inScope [Access] (mode : ScopeMode) (kind : ScopeKind) (node : Node)
    (body : Resolve α) : Resolve α :=
  Action.bracket (ofCheck (mode.enter kind node.id node.location))
    (fun s => { s with toContext := mode.leave s.toContext }) body

/-- Runs a step with other scopes open. -/
def withStack (stack : List ScopeId) (body : Resolve α) : Resolve α := do
  let saved := (← get).stack
  Action.bracket (modify fun s => { s with stack }) (fun s => { s with stack := saved }) body

/-- Runs a step while a variable counts as being resolved. -/
def whileResolving (n : NodeId) (body : Resolve α) : Resolve α :=
  Action.bracket (modify fun s => { s with resolving := n :: s.resolving })
    (fun s => { s with resolving := s.resolving.tail }) body

/-- Whether nothing is left to do for a variable, or someone is at it already. -/
def isTaken (n : NodeId) : Resolve Bool := do
  let s ← get
  return s.resolved.contains n || s.resolving.contains n

end Resolve

/-! ### The plan -/

/-- A variable of the program or of a class, and the node in whose scope it is declared. -/
structure Pending where
  decl : VariableDecl
  owner : NodeId

structure Plan where
  pending : Table Pending := {}
  /-- The variable that a slot belongs to. -/
  ownerOfSlot : Table NodeId := {}

namespace Plan

def add (p : Plan) (decl : VariableDecl) (owner : NodeId) (s : Slot) : Plan :=
  ⟨p.pending.insert decl.id ⟨decl, owner⟩, p.ownerOfSlot.insert s decl.id⟩

/-- How many variables can be under way at once. -/
def size (p : Plan) : Nat :=
  p.pending.entries.length

mutual

/-- Adds the variables in a declaration of `owner`; each gets a slot if it has none. -/
def addDecl (p : Plan) (owner : NodeId) : Decl → Check Plan
  | .var v => do return p.add v owner (← Check.slotOf v.id)
  | .object c => addClass p c
  | _ => pure p

def addClass (p : Plan) : ClassDecl → Check Plan
  | ⟨node, _, _, members⟩ => addDecls p node.id members

def addDecls (p : Plan) (owner : NodeId) : List Decl → Check Plan
  | [] => pure p
  | d :: rest => do addDecls (← addDecl p owner d) owner rest

end

end Plan

end Sema
