import Sema.Typing.TypeExpr
import Sema.Typing.Expression

/-!
The rules for variables, for demands on them, and for statements. A statement is typed void. A
variable statement has the node of its variable, so a local variable is void once its statement is
done.
-/

namespace Sema.Resolve

variable [Access]

/-! ### Variables -/

/-- A variable has the type it is annotated with, or else that of its value. -/
def variableType (plan : Plan) (demand : NodeId → Resolve Unit) (v : VariableDecl) :
    Resolve Unit := do
  let s ← Check.slotOf v.id
  match v.type, v.value with
  | some type, value =>
    let declared ← TypeExpr.resolve .strict type
    Check.assign s declared
    match value with
    | some e =>
      let found ← expr plan demand e
      checkAssignable s e found .definition
    | none => pure ()
  | none, some e =>
    let found ← expr plan demand e
    if ((← get).types.get found).isVoid then fail .voidAssignment e.node.location
    Check.assign s found
  | none, none => fail (.untypedVariable v.name.name) v.location

/-- Resolves a variable once. A local variable is declared only after its value was resolved. -/
def variableDecl (plan : Plan) (demand : NodeId → Resolve Unit) (v : VariableDecl) :
    Resolve Unit := do
  if ← isTaken v.id then return
  whileResolving v.id (variableType plan demand v)
  modify fun s => { s with resolved := v.id :: s.resolved }
  if (← get).currentKind? = some .body then
    Check.declare v.name.name .value v.id v.location

/-- Resolves a variable of the program or of a class out of turn, with the scopes open in which
it was declared. Every demand inside another is for one more variable under way, so that a depth
of the size of the plan is never used up. -/
def demandWithin (plan : Plan) : Nat → NodeId → Resolve Unit
  | 0, _ => pure ()
  | depth + 1, n => do
    match plan.pending.get? n with
    | none => pure ()
    | some pending =>
      if ← isTaken n then return
      let c ← get
      match c.scopeOf? pending.owner with
      | none => pure ()
      | some scope =>
        withStack (c.around scope)
          ((variableDecl plan (demandWithin plan depth) pending.decl).within pending.decl.name.name)

def demand (plan : Plan) (n : NodeId) : Resolve Unit :=
  demandWithin plan plan.size n

/-! ### Statements -/

/-- The result type of the function around the current scope, and its scope. -/
def enclosingResult (location : Location) : Check (ScopeId × Slot) := do
  let c ← get
  match c.enclosing? .function with
  | none => fail .returnOutsideFunction location
  | some id =>
    match (c.scope? id).bind fun scope => c.shape? scope.node with
    | some (.function returns _) => return (id, returns)
    | _ => fail .returnOutsideFunction location

/-- What the walk over statements and declarations leaves to others. -/
structure Rules where
  value : Expr → Resolve Slot
  declare : VariableDecl → Resolve Unit

/-- Variables are resolved in their turn, or before if they are demanded. -/
def Rules.standard (plan : Plan) : Rules :=
  ⟨expr plan (demand plan), variableDecl plan (demand plan)⟩

instance : Coe Plan Rules := ⟨Rules.standard⟩

def returnRule (r : Rules) (node : Node) (value : Option Expr) : Resolve Unit := do
  let (id, returns) ← enclosingResult node.location
  let t := (← get).types
  match value, (t.get returns).isVoid with
  | some e, true => fail .voidReturnValue e.node.location
  | some e, false =>
    let found ← r.value e
    checkAssignable returns e found .returned
  | none, false => fail (.missingReturnValue (t.display returns)) node.location
  | none, true => pure ()
  modify fun s => { s with toContext := s.toContext.markReturn id }

def condition (r : Rules) (e : Expr) : Resolve Unit := do
  let found ← r.value e
  let t := (← get).types
  if t.isIncomplete found || (t.get found).isBoolean then return
  fail (.mismatch "Bool" (t.display found) .condition) e.node.location

/-- Marks a node as one that has no value. -/
def typeVoid (node : Node) : Check Unit := do
  let _ ← Check.setShape node.id .void

mutual

def stmt (mode : ScopeMode) (r : Rules) : Stmt → Resolve Unit
  | .expression node value => do
    let _ ← r.value value
    typeVoid node
  | .var v => do
    (r.declare v).within v.name.name
    typeVoid v.toNode
  | .ret node value => do
    returnRule r node value
    typeVoid node
  | .branch node test yes no => do
    condition r test
    block mode r yes
    match no with
    | some other => block mode r other
    | none => pure ()
    typeVoid node
  | .loop node test body => do
    condition r test
    block mode r body
    typeVoid node
  | .block b => do
    block mode r b
    typeVoid b.toNode

def stmts (mode : ScopeMode) (r : Rules) : List Stmt → Resolve Unit
  | [] => pure ()
  | s :: rest => do
    stmt mode r s
    stmts mode r rest

def block (mode : ScopeMode) (r : Rules) : Block → Resolve Unit
  | ⟨node, statements⟩ => do
    inScope mode .body node (stmts mode r statements)
    typeVoid node

end

end Sema.Resolve
