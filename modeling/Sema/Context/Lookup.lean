import Sema.Context.Basic

/-!
Finding the symbol that a name stands for. The search goes outwards from the current scope; where
it passes through a class, a value is also looked for in the base classes.
-/

namespace Sema.Context

variable [Access]

/-- The scope of the base class of the class with the given scope. -/
def baseScope? (c : Context) (id : ScopeId) : Option ScopeId := do
  let scope ← c.scope? id
  let object ← c.nodeType? scope.node
  let base ← c.types.base? object
  match c.types.get base with
  | .object scope _ _ _ => some scope
  | _ => none

/-- The scopes of the base classes of a class, nearest first, up to a repetition. -/
def baseScopes (c : Context) (id : ScopeId) : List ScopeId :=
  (Graph.trail c.baseScope? c.scopes.size id).tail

def findLocal? (c : Context) (id : ScopeId) (name : String) (kind : SymbolKind) : Option Symbol :=
  (c.scope? id).bind fun s => s.find? name kind

/-- The scopes in which a name is looked for when the search comes to a scope. -/
def searchedAt (c : Context) (kind : SymbolKind) (id : ScopeId) : List ScopeId :=
  if kind = .value ∧ c.scopeKind? id = some .object then id :: c.baseScopes id else [id]

/-- The scopes in which a name is looked for, in order. -/
def searched (c : Context) (kind : SymbolKind) : List ScopeId :=
  match c.current? with
  | some id => (c.around id).flatMap (c.searchedAt kind)
  | none => []

/-- The visible symbol with a name and kind. -/
def lookup? (c : Context) (name : String) (kind : SymbolKind) : Option Symbol :=
  (c.searched kind).findSome? fun id => c.findLocal? id name kind

/-- The node that declares the visible symbol with a name and kind. -/
def declarationOf? (c : Context) (name : String) (kind : SymbolKind) : Option NodeId :=
  (c.lookup? name kind).map (·.declaration)

end Sema.Context
