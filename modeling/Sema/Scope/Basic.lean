import Sema.Syntax.Location
import Sema.Types.Shape

/-!
Scopes and the symbols declared in them. A symbol binds a name, as a value or as a type, to the
node that declares it; the type of a symbol is the type of that node.
-/

namespace Sema

/-- A scope remembers what it was opened for. -/
inductive ScopeKind where
  | program
  | body
  | function
  | object
  | enum
  deriving DecidableEq, Repr

/-- In a program and in a class a later declaration replaces an earlier one of the same name;
every other scope refuses it. -/
def ScopeKind.allowsOverwrite : ScopeKind → Bool
  | .program | .object => true
  | _ => false

inductive SymbolKind where
  | value
  | type
  deriving DecidableEq, Repr

def SymbolKind.describe : SymbolKind → String
  | .value => "a value"
  | .type => "a type"

structure Symbol where
  name : String
  kind : SymbolKind
  scope : ScopeId
  declaration : NodeId
  deriving DecidableEq, Repr

/-- Whether the symbol answers to a name of a kind. -/
def Symbol.isNamed (s : Symbol) (name : String) (kind : SymbolKind) : Bool :=
  s.kind = kind && s.name = name

structure Scope where
  id : ScopeId
  parent : Option ScopeId
  kind : ScopeKind
  /-- The node the scope was opened for. -/
  node : NodeId
  /-- In order of declaration. -/
  symbols : List Symbol := []
  /-- Whether a return statement was checked in this function. -/
  returns : Bool := false
  deriving DecidableEq, Repr

namespace Scope

def find? (s : Scope) (name : String) (kind : SymbolKind) : Option Symbol :=
  s.symbols.find? fun symbol => symbol.isNamed name kind

/-- Puts a symbol in the place of the first one with its name and kind. -/
def replaceSymbol (symbol : Symbol) : List Symbol → List Symbol
  | [] => []
  | s :: rest =>
    if s.isNamed symbol.name symbol.kind then symbol :: rest else s :: replaceSymbol symbol rest

/-- Adds a symbol. One of the same name and kind that another node declared is replaced, or is
in the way when names have to be unique: then there is no result. -/
def insert? (s : Scope) (symbol : Symbol) (unique : Bool) : Option Scope :=
  match s.find? symbol.name symbol.kind with
  | none => some { s with symbols := s.symbols ++ [symbol] }
  | some existing =>
    if existing.declaration = symbol.declaration then some s
    else if unique then none
    else some { s with symbols := replaceSymbol symbol s.symbols }

end Scope

end Sema
