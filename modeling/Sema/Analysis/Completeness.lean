import Sema.Context.Basic
import Sema.Diagnostic.Fault
import Sema.Syntax.Visitor
import Sema.Types.Display

/-!
After resolution no node may be left with a type that is still to be found out.
-/

namespace Sema

/-- Names the declaration around a check in its fault. -/
def Fault.enclose {α : Type} (name : String) (x : Except Fault α) : Except Fault α :=
  x.mapError fun f => f.within name

namespace Completeness

/-- A node has a type, and a complete one. -/
def check [Access] (c : Context) (node : Node) (description : String) : Except Fault Unit :=
  match c.nodeType? node.id with
  | some s =>
    if c.types.isIncomplete s then
      .error { cause := .incomplete description (c.types.display s), location := node.location }
    else .ok ()
  | none => .error { cause := .incomplete description "<untyped>", location := node.location }

/-- Checks every declaration, parameter, enum item, block, statement, expression and annotation.
A variable statement is checked as a variable. -/
def checker [Access] (c : Context) : Visitor (Except Fault) where
  declaration d children :=
    Fault.enclose d.name do check c d.node d.describe; children
  variableDecl v children := do
    check c v.toNode v.describe
    Fault.enclose v.name.name children
  enumItem i children := do check c i.toNode i.describe; children
  parameter p children := do check c p.toNode p.describe; children
  block b children := do check c b.toNode "block"; children
  statement s children :=
    match s with
    | .var _ => children
    | s => do check c s.node s.describe; children
  expression e children := do check c e.node e.describe; children
  typeExpr t children := do check c t.node t.describe; children

end Completeness

def Program.checkComplete [Access] (p : Program) (c : Context) : Except Fault Unit :=
  (Completeness.checker c).visitProgram p

end Sema
