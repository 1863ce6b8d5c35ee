import Sema.Context.Lookup
import Sema.Diagnostic.Fault
import Sema.Types.Display

/-!
Steps of an analysis. A step changes a state and may end in a fault; what it changed before the
fault stays changed.
-/

namespace Sema

/-- Steps on a state of type `σ`. -/
abbrev Action (σ : Type) := ExceptT Fault (StateM σ)

namespace Action

variable {σ α : Type}

/-- Names the declaration around a step in its fault. -/
def within (name : String) (x : Action σ α) : Action σ α :=
  ExceptT.mk do
    match ← x.run with
    | .ok a => return .ok a
    | .error f => return .error (f.within name)

/-- Replaces the fault of a step. -/
def orElseFault (x : Action σ α) (f : Fault) : Action σ α :=
  ExceptT.mk do
    match ← x.run with
    | .ok a => return .ok a
    | .error _ => return .error f

/-- Enters, runs the body and leaves, also when the body ends in a fault. If entering itself ends
in a fault, nothing is left. -/
def bracket (enter : Action σ Unit) (leave : σ → σ) (body : Action σ α) : Action σ α := do
  enter
  ExceptT.mk do
    let result ← body.run
    modify leave
    return result

end Action

def fail {σ α : Type} (cause : Cause) (location : Location) : Action σ α :=
  throw { cause, location }

/-- Steps on a context alone. -/
abbrev Check := Action Context

namespace Check

/-! ### Types of nodes -/

def types : Check TypeStore := do
  return (← get).types

def alloc (shape : Shape) : Check Slot :=
  modifyGet fun c => c.alloc shape

def assign [Access] (target source : Slot) : Check Unit :=
  modify fun c => c.assign target source

def slotOf (n : NodeId) : Check Slot :=
  modifyGet fun c => c.slotOf n

def bind [Access] (n : NodeId) (source : Slot) : Check Slot :=
  modifyGet fun c => c.bind n source

def setShape [Access] (n : NodeId) (shape : Shape) : Check Slot :=
  modifyGet fun c => c.setShape n shape

def display [Access] (s : Slot) : Check String := do
  return (← types).display s

/-! ### Symbols -/

/-- Adds a symbol to the current scope. -/
def addSymbol [Access] (symbol : Symbol) (unique : Bool) (location : Location) : Check Unit := do
  let c ← get
  let some id := c.current? | fail (.scopeNotFound symbol.declaration) location
  match (c.scope? id).bind fun s => s.insert? symbol unique with
  | some scope => set (c.modifyScope id fun _ => scope)
  | none => fail (.redeclared symbol.name symbol.kind) location

/-- Declares a name in the current scope, which may have to be unique there. -/
def declare [Access] (name : String) (kind : SymbolKind) (declaration : NodeId)
    (location : Location) :
    Check Unit := do
  let c ← get
  let unique := c.currentKind?.any fun k => !k.allowsOverwrite
  addSymbol ⟨name, kind, c.currentOrRoot, declaration⟩ unique location

/-! ### Scopes -/

/-- Opens the scope of a node again. -/
def reopenScope (n : NodeId) (location : Location) : Check ScopeId := do
  match (← get).reopenScope? n with
  | some (id, c) => set c; return id
  | none => fail (.scopeNotFound n) location

end Check

end Sema
