import Sema.Context.Table
import Sema.Flow.Graph
import Sema.Scope.Basic
import Sema.Types.Store

/-!
What is known about a program: the types, the slot of each node, the scopes with the stack of
those that are open, and the flow graphs. Types of nodes are given and changed here; a node keeps
the slot it once got.
-/

namespace Sema

structure Context where
  types : TypeStore := {}
  /-- In order of creation; a scope's number is its place. -/
  scopes : Array Scope := #[]
  /-- The open scopes, innermost first. -/
  stack : List ScopeId := []
  nodeTypes : Table Slot := {}
  nodeScopes : Table ScopeId := {}
  flow : Table FlowGraph := {}
  deriving DecidableEq, Repr

namespace Context

/-- The scope of a whole program is always the first one. -/
def rootScope : ScopeId := 0

/-! ### Scopes -/

def depth (c : Context) : Nat :=
  c.stack.length

def current? (c : Context) : Option ScopeId :=
  c.stack.head?

def currentOrRoot (c : Context) : ScopeId :=
  c.current?.getD rootScope

def scope? [Access] (c : Context) (id : ScopeId) : Option Scope :=
  Access.read c.scopes id

def scopeKind? [Access] (c : Context) (id : ScopeId) : Option ScopeKind :=
  (c.scope? id).map (·.kind)

def currentKind? [Access] (c : Context) : Option ScopeKind :=
  c.current?.bind c.scopeKind?

/-- The scope that was opened last for a node. -/
def scopeOf? (c : Context) (n : NodeId) : Option ScopeId :=
  c.nodeScopes.get? n

/-- Opens a new scope inside the current one. -/
def openScope (c : Context) (kind : ScopeKind) (n : NodeId) : ScopeId × Context :=
  let id := c.scopes.size
  (id, { c with
    scopes := c.scopes.push { id, parent := c.current?, kind, node := n }
    nodeScopes := c.nodeScopes.insert n id
    stack := id :: c.stack })

/-- Opens the scope of a node again, if it has one. -/
def reopenScope? (c : Context) (n : NodeId) : Option (ScopeId × Context) :=
  (c.scopeOf? n).map fun id => (id, { c with stack := id :: c.stack })

/-- Closes the current scope. What was declared in it stays known. -/
def closeScope (c : Context) : Context :=
  { c with stack := c.stack.tail }

/-- The innermost open scope of a kind. -/
def enclosing? [Access] (c : Context) (kind : ScopeKind) : Option ScopeId :=
  c.stack.find? fun id => c.scopeKind? id = some kind

def isInside [Access] (c : Context) (kind : ScopeKind) : Bool :=
  (c.enclosing? kind).isSome

def parent? [Access] (c : Context) (id : ScopeId) : Option ScopeId :=
  (c.scope? id).bind (·.parent)

/-- A scope and the scopes around it, innermost first. -/
def around [Access] (c : Context) (id : ScopeId) : List ScopeId :=
  Graph.trail c.parent? c.scopes.size id

def modifyScope [Access] (c : Context) (id : ScopeId) (f : Scope → Scope) : Context :=
  { c with scopes := Access.modify c.scopes id f }

/-- Notes that a function returns somewhere. -/
def markReturn [Access] (c : Context) (id : ScopeId) : Context :=
  c.modifyScope id fun s => { s with returns := true }

/-! ### Types of nodes -/

def nodeType? (c : Context) (n : NodeId) : Option Slot :=
  c.nodeTypes.get? n

def shape? [Access] (c : Context) (n : NodeId) : Option Shape :=
  (c.nodeType? n).map c.types.get

def alloc (c : Context) (shape : Shape) : Slot × Context :=
  (c.types.size, { c with types := (c.types.alloc shape).2 })

def assign [Access] (c : Context) (target source : Slot) : Context :=
  { c with types := c.types.assign target source }

/-- Gives a node without a slot a new one. -/
def allocFor (c : Context) (n : NodeId) (shape : Shape) : Slot × Context :=
  (c.types.size,
    { c with types := (c.types.alloc shape).2, nodeTypes := c.nodeTypes.insert n c.types.size })

/-- The slot of a node; a node without one gets a slot of unknown type. -/
def slotOf (c : Context) (n : NodeId) : Slot × Context :=
  match c.nodeType? n with
  | some s => (s, c)
  | none => c.allocFor n .unknown

/-- Makes a node see the type in `source`. A node without a slot shares it; one that has a slot
keeps it and gets a copy, which everyone who shares the slot then sees too. -/
def bind [Access] (c : Context) (n : NodeId) (source : Slot) : Slot × Context :=
  match c.nodeType? n with
  | some s => (s, c.assign s source)
  | none => (source, { c with nodeTypes := c.nodeTypes.insert n source })

/-- Stores a type in the slot of a node. -/
def setShape [Access] (c : Context) (n : NodeId) (shape : Shape) : Slot × Context :=
  match c.nodeType? n with
  | some s => (s, { c with types := c.types.set s shape })
  | none => c.allocFor n shape

def setFlow (c : Context) (n : NodeId) (g : FlowGraph) : Context :=
  { c with flow := c.flow.insert n g }

def flow? (c : Context) (n : NodeId) : Option FlowGraph :=
  c.flow.get? n

end Context

end Sema
