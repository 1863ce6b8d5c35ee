import Sema.Diagnostic.Fault
import Sema.Syntax.Describe

/-!
Two rearrangements of a program before it is analysed. Variables move in front of the other
declarations, in the program and in each class, and the statements outside every function become
the body of a function `main`.
-/

namespace Sema

/-! ### Variables first -/

def variablesFirst (ds : List Decl) : List Decl :=
  ds.filter Decl.isVariable ++ ds.filter fun d => !d.isVariable

mutual

def Decl.hoist : Decl → Decl
  | .object c => .object c.hoist
  | .function f => .function f
  | .var v => .var v
  | .enum e => .enum e
  | .foreign f => .foreign f

def ClassDecl.hoist : ClassDecl → ClassDecl
  | ⟨node, name, base, members⟩ => ⟨node, name, base, variablesFirst (hoistAll members)⟩

def hoistAll : List Decl → List Decl
  | [] => []
  | d :: rest => d.hoist :: hoistAll rest

end

/-- Moves variables in front, in the program and in each class; each group keeps its order. -/
def Program.hoist (p : Program) : Program :=
  { p with declarations := variablesFirst (hoistAll p.declarations) }

/-! ### The entry point -/

def entryPointName : String := "main"

/-- The function made of the loose statements. Its body, its name and itself take the next three
numbers, and it stands where the first statement does. -/
def Program.entryPoint (p : Program) : FunctionDecl :=
  let location := match p.statements with
    | first :: _ => first.node.location
    | [] => p.location
  { id := p.nextId + 2
    location
    name := ⟨⟨p.nextId + 1, location⟩, entryPointName⟩
    parameters := []
    returns := none
    body := ⟨⟨p.nextId, location⟩, p.statements⟩ }

/-- Gives a program without a `main` one that runs its loose statements. A program that has one
may not have loose statements. -/
def Program.withEntryPoint (p : Program) : Except Fault Program :=
  match p.function? entryPointName, p.statements with
  | some _, [] => .ok p
  | some _, stray :: _ =>
    .error { cause := .ambiguousEntryPoint, location := stray.node.location }
  | none, _ =>
    .ok { p with
      declarations := p.declarations ++ [.function p.entryPoint]
      statements := []
      nextId := p.nextId + 3 }

end Sema
