import Sema.Syntax.Describe
import Sema.Typing.Statement

/-!
The second walk over a program. It opens the scopes of the first walk again, and new ones in
function bodies. First the annotations of all declarations are resolved once more, now that every
name is declared, and the class hierarchy is checked; then variables and function bodies.
-/

namespace Sema.Resolve

variable [Access]

/-! ### Signatures -/

/-- A base class has to be a class. -/
def baseSignature : Option TypeExpr → Check Unit
  | some type => do
    let s ← TypeExpr.resolve .strict type
    let t ← Check.types
    if !(t.get s).isObject then fail (.notObject (t.display s)) type.node.location
  | none => pure ()

def parameterSignatures : List Parameter → Check Unit
  | [] => pure ()
  | p :: rest => do
    let _ ← TypeExpr.resolveInto .strict p.id p.type
    parameterSignatures rest

def functionSignature (mode : ScopeMode) (f : FunctionDecl) : Check Unit :=
  mode.inScope .function f.toNode do
    parameterSignatures f.parameters
    match f.returns with
    | some type => let _ ← TypeExpr.resolve .strict type
    | none => pure ()

def variableSignature (v : VariableDecl) : Check Unit := do
  match v.type with
  | some type => let _ ← TypeExpr.resolveInto .strict v.id type
  | none => pure ()

def enumSignature (mode : ScopeMode) (e : EnumDecl) : Check Unit :=
  mode.inScope .enum e.toNode do
    let _ ← TypeExpr.resolveItems .strict e.items

mutual

def signature (mode : ScopeMode) : Decl → Check Unit
  | .object c => (classSignature mode c).within c.name.name
  | .function f => (functionSignature mode f).within f.name.name
  | .var v => (variableSignature v).within v.name.name
  | .enum e => (enumSignature mode e).within e.name.name
  | .foreign _ => pure ()

def classSignature (mode : ScopeMode) : ClassDecl → Check Unit
  | ⟨node, _, base, members⟩ =>
    mode.inScope .object node do
      baseSignature base
      signatures mode members

def signatures (mode : ScopeMode) : List Decl → Check Unit
  | [] => pure ()
  | d :: rest => do
    signature mode d
    signatures mode rest

end

/-! ### The class hierarchy -/

mutual

def hierarchy : Decl → Check Unit
  | .object c => classHierarchy c
  | _ => pure ()

/-- No class may be among its own base classes. -/
def classHierarchy : ClassDecl → Check Unit
  | ⟨node, name, _, members⟩ => do
    let s ← Check.slotOf node.id
    if (← Check.types).inheritsFromItself s then
      fail (.cyclicInheritance name.name) node.location
    hierarchies members

def hierarchies : List Decl → Check Unit
  | [] => pure ()
  | d :: rest => do
    hierarchy d
    hierarchies rest

end

/-! ### Declarations -/

/-- A function with a result has to return somewhere, and last. -/
def checkReturns (f : FunctionDecl) (scope : Option ScopeId) : Check Unit := do
  let c ← get
  match c.shape? f.id with
  | some (.function returns _) =>
    if (c.types.get returns).isVoid then return
    let found := (scope.bind c.scope?).any (·.returns)
    if !found then
      fail (.missingReturn f.name.name (c.types.display returns)) f.location
    if !f.body.endsWithReturn then fail (.lastNotReturn f.name.name) f.location
  | _ => pure ()

def function (mode : ScopeMode) (r : Rules) (f : FunctionDecl) : Resolve Unit :=
  inScope mode .function f.toNode do
    let scope := (← get).current?
    block mode r f.body
    checkReturns f scope

mutual

def decl (mode : ScopeMode) (r : Rules) : Decl → Resolve Unit
  | .object c => (object mode r c).within c.name.name
  | .function f => (function mode r f).within f.name.name
  | .var v => (r.declare v).within v.name.name
  | .enum _ => pure ()
  | .foreign _ => pure ()

def object (mode : ScopeMode) (r : Rules) : ClassDecl → Resolve Unit
  | ⟨node, _, _, members⟩ => inScope mode .object node (decls mode r members)

def decls (mode : ScopeMode) (r : Rules) : List Decl → Resolve Unit
  | [] => pure ()
  | d :: rest => do
    decl mode r d
    decls mode r rest

end

/-- What is done with a program once its variables are known. -/
def walk (mode : ScopeMode) (r : Rules) (p : Program) : Resolve Unit :=
  inScope mode .program p.toNode do
    signatures mode p.declarations
    hierarchies p.declarations
    decls mode r p.declarations

def program (mode : ScopeMode) (p : Program) : Check Unit := do
  let plan ← Plan.addDecls {} p.id p.declarations
  toCheck (walk mode plan p)

end Sema.Resolve
