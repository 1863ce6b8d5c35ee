import Sema.Syntax.Describe
import Sema.Syntax.Visitor

/-!
Recorded walks: the events of a visit to every node of a program, in order, cut off after a given
number of events.
-/

namespace Sema

/-- What is visited. Expressions are told apart by what may be done with them: a place may be
assigned to. -/
inductive Role where
  | program | declaration | object | function | variableDecl | enum | foreign | enumItem | parameter
  | block | statement | place | null | expression | type
  deriving DecidableEq, Repr

structure Event where
  role : Role
  node : Node
  text : String
  deriving DecidableEq, Repr

namespace Event

def ofIdent (role : Role) (name : Ident) : Event :=
  ⟨role, name.toNode, name.name⟩

def ofExpr (e : Expr) : Event :=
  let role := if e.isAssignable then .place else if e.isNull then .null else .expression
  ⟨role, e.node, e.describe⟩

end Event

/-- The events so far, in order, and the number of the node whose visit was refused. -/
abbrev Tour := ExceptT NodeId (StateM (Array Event))

namespace Tour

/-- Records an event, or stops when the limit has been reached. -/
def record (limit : Option Nat) (event : Event) : Tour Unit := do
  let events ← get
  if limit.any (· ≤ events.size) then throw event.node.id
  set (events.push event)

/-- Records every visit and descends everywhere. -/
def recorder (limit : Option Nat) : Visitor Tour where
  program p children := do record limit ⟨.program, p.toNode, ""⟩; children
  declaration d children := do record limit ⟨.declaration, d.node, d.describe⟩; children
  object c children := do record limit (.ofIdent .object c.name); children
  function f children := do record limit (.ofIdent .function f.name); children
  variableDecl v children := do record limit (.ofIdent .variableDecl v.name); children
  enum e children := do record limit (.ofIdent .enum e.name); children
  enumItem i children := do record limit ⟨.enumItem, i.toNode, i.name.name⟩; children
  foreign f children := do record limit (.ofIdent .foreign f.name); children
  parameter p children := do record limit ⟨.parameter, p.toNode, p.name.name⟩; children
  block b children := do
    record limit ⟨.block, b.toNode, if b.endsWithReturn then "true" else "false"⟩; children
  statement s children := do record limit ⟨.statement, s.node, s.describe⟩; children
  expression e children := do record limit (.ofExpr e); children
  typeExpr t children := do record limit ⟨.type, t.node, t.describe⟩; children

end Tour

/-- The first `limit` events of the walk over a program, all of them without a limit, and the node
at which the walk was stopped. -/
def Program.tour (p : Program) (limit : Option Nat) : Array Event × Option NodeId :=
  match ((Tour.recorder limit).visitProgram p).run.run #[] with
  | (.ok (), events) => (events, none)
  | (.error id, events) => (events, some id)

def Program.expressionCount (p : Program) : Nat :=
  let counter : Visitor (StateM Nat) :=
    { expression := fun _ children => do modify (· + 1); children }
  ((counter.visitProgram p).run 0).2

def Program.typeExprCount (p : Program) : Nat :=
  let counter : Visitor (StateM Nat) :=
    { typeExpr := fun _ children => do modify (· + 1); children }
  ((counter.visitProgram p).run 0).2

end Sema
