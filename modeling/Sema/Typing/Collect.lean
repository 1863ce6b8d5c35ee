import Sema.Scope.Mode
import Sema.Syntax.Describe
import Sema.Typing.TypeExpr

/-!
The first walk over the declarations, not into function bodies. It opens the scopes of the program
and of its classes, functions and enums, declares every name and gives each declaration a type as
far as it can be seen from what was declared before. A name that is declared further down leaves
its annotation unknown for now. Functions of the host are the exception: their types have to be
concrete at once.
-/

namespace Sema.Collect

variable [Access]

/-! ### First guesses at initial values -/

/-- What a call of a name gives: the result of a function, or a new object of a class. -/
def callShape? (c : Context) (name : String) : Option Shape :=
  match (c.declarationOf? name .value).bind c.shape? with
  | some (.function returns _) => some (c.types.get returns)
  | _ =>
    match (c.declarationOf? name .type).bind c.shape? with
    | some shape => if shape.isObject then some shape else none
    | none => none

/-- What a value can be seen to be before anything is resolved. -/
def valueShape? (c : Context) : Expr → Option Shape
  | .literal _ value => value.shape?
  | .identifier name => (c.declarationOf? name.name .value).bind c.shape?
  | .call _ (.identifier callee) _ => callShape? c callee.name
  | _ => none

/-! ### Declarations -/

/-- Parameters are typed by their annotations; in the scope of a function they are declared. -/
def parametersFrom (declared : Bool) (tolerance : Tolerance) :
    List Parameter → Check (List (String × Slot))
  | [] => pure []
  | p :: rest => do
    if declared then Check.declare p.name.name .value p.id p.location
    let s ← TypeExpr.resolveInto tolerance p.id p.type
    return (p.name.name, s) :: (← parametersFrom declared tolerance rest)

def parameters (tolerance : Tolerance) (ps : List Parameter) : Check (List (String × Slot)) := do
  parametersFrom ((← get).currentKind? = some .function) tolerance ps

def resultType (tolerance : Tolerance) : Option TypeExpr → Check Slot
  | some type => TypeExpr.resolve tolerance type
  | none => Check.alloc .void

def function (mode : ScopeMode) (f : FunctionDecl) : Check Unit := do
  Check.declare f.name.name .value f.id f.location
  mode.inScope .function f.toNode do
    let ps ← parameters .lenient f.parameters
    let returns ← resultType .lenient f.returns
    let _ ← Check.setShape f.id (.function returns ps)

def variableDecl (v : VariableDecl) : Check Unit := do
  Check.declare v.name.name .value v.id v.location
  match v.type, v.value with
  | some type, _ =>
    let _ ← TypeExpr.resolveInto .lenient v.id type
  | none, some value =>
    let guess ← Check.alloc ((valueShape? (← get) value).getD .unknown)
    let s ← Check.slotOf v.id
    Check.assign s guess
  | none, none => fail (.untypedVariable v.name.name) v.location

def enumItems : List EnumItem → Check (List Slot)
  | [] => pure []
  | item :: rest => do
    Check.declare item.name.name .value item.id item.location
    let s ← TypeExpr.resolveItem .lenient item
    return s :: (← enumItems rest)

def enum (mode : ScopeMode) (e : EnumDecl) : Check Unit := do
  Check.declare e.name.name .type e.id e.location
  mode.inScope .enum e.toNode do
    let scope := (← get).currentOrRoot
    let items ← enumItems e.items
    let _ ← Check.setShape e.id (.enum scope e.name.name items)

def foreign (f : ForeignDecl) : Check Unit := do
  let notConcrete : Fault := { cause := .foreignNotConcrete f.name.name, location := f.location }
  Check.declare f.name.name .value f.id f.location
  let ps ← (parameters .strict f.parameters).orElseFault notConcrete
  let returns ← (resultType .strict f.returns).orElseFault notConcrete
  let s ← Check.setShape f.id (.function returns ps)
  if (← Check.types).isIncomplete s then throw notConcrete

/-- Adds a member to the fields of its class. Only variables and functions are fields. -/
def addField (object : Slot) (member : Decl) : Check Unit := do
  if member.isField then
    let s ← Check.slotOf member.node.id
    let shape := (← Check.types).get object
    modify fun c => { c with types := c.types.set object (shape.addField member.name s) }

def baseType : Option TypeExpr → Check (Option Slot)
  | some type => do return some (← TypeExpr.resolve .lenient type)
  | none => pure none

mutual

def decl (mode : ScopeMode) : Decl → Check Unit
  | .object c => (object mode c).within c.name.name
  | .function f => (function mode f).within f.name.name
  | .var v => (variableDecl v).within v.name.name
  | .enum e => (enum mode e).within e.name.name
  | .foreign f => (foreign f).within f.name.name

/-- The name of a class is declared first, so that its members may refer to it. -/
def object (mode : ScopeMode) : ClassDecl → Check Unit
  | ⟨node, name, base, members⟩ => do
    Check.declare name.name .type node.id node.location
    mode.inScope .object node do
      let scope := (← get).currentOrRoot
      let base ← baseType base
      let s ← Check.setShape node.id (.object scope base name.name [])
      fields mode s members

def fields (mode : ScopeMode) (s : Slot) : List Decl → Check Unit
  | [] => pure ()
  | member :: rest => do
    decl mode member
    addField s member
    fields mode s rest

end

def decls (mode : ScopeMode) : List Decl → Check Unit
  | [] => pure ()
  | d :: rest => do decl mode d; decls mode rest

def program (mode : ScopeMode) (p : Program) : Check Unit :=
  mode.inScope .program p.toNode (decls mode p.declarations)

end Sema.Collect
