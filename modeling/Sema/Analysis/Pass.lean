import Sema.Analysis.Nullability
import Sema.Syntax.Arrange
import Sema.Typing.Collect
import Sema.Typing.Declaration

/-!
An analysis takes a program and a context through a sequence of passes. The first fault ends it.
-/

namespace Sema

/-! ### Flow graphs, one for each function and method -/

namespace Context

mutual

def recordFlow [Access] (c : Context) : Decl → Context
  | .function f => c.setFlow f.id f.flowGraph
  | .object o => recordClassFlow c o
  | _ => c

def recordClassFlow [Access] (c : Context) : ClassDecl → Context
  | ⟨_, _, _, members⟩ => recordFlows c members

def recordFlows [Access] (c : Context) : List Decl → Context
  | [] => c
  | d :: rest => recordFlows (recordFlow c d) rest

end

end Context

/-! ### Passes -/

structure Analysis where
  program : Program
  context : Context := {}

inductive Pass where
  | hoist
  | entryPoint
  | collect (mode : ScopeMode)
  | resolve (mode : ScopeMode)
  | completeness
  | nullability
  | flow
  deriving DecidableEq, Repr

namespace Pass

def name : Pass → String
  | hoist => "reorder-declarations"
  | entryPoint => "synthesize-entry-point"
  | collect _ => "collect-declarations"
  | resolve _ => "resolve-types"
  | completeness => "completeness"
  | nullability => "null-check"
  | flow => "control-flow"

/-- A step on the context that may look at the program. -/
def onContext (x : Program → Check Unit) : Action Analysis Unit :=
  ExceptT.mk do
    let a ← get
    let (result, context) := (x a.program).run.run a.context
    set { a with context }
    return result

def run [Access] : Pass → Action Analysis Unit
  | hoist => modify fun a => { a with program := a.program.hoist }
  | entryPoint => do
    let a ← get
    let program ← liftExcept a.program.withEntryPoint
    set { a with program }
  | collect mode => onContext (Collect.program mode)
  | resolve mode => onContext (Resolve.program mode)
  | completeness => do
    let a ← get
    liftExcept (a.program.checkComplete a.context)
  | nullability => do
    let a ← get
    liftExcept (a.program.checkNulls a.context)
  | flow => modify fun a => { a with context := a.context.recordFlows a.program.declarations }
where
  liftExcept {α : Type} (x : Except Fault α) : Action Analysis α :=
    ExceptT.mk (pure x)

def runAll [Access] : List Pass → Action Analysis Unit
  | [] => pure ()
  | p :: rest => do
    p.run
    runAll rest

/-- The passes of a full analysis, in order. -/
def standard : List Pass :=
  [hoist, entryPoint, collect .fresh, resolve .reopen, completeness, nullability, flow]

end Pass

namespace Analysis

/-- Runs passes over a program that nothing is known about yet. -/
def run [Access] (passes : List Pass) (p : Program) : Except Fault Analysis :=
  match (Pass.runAll passes).run.run { program := p } with
  | (.ok (), a) => .ok a
  | (.error f, _) => .error f

def standard [Access] (p : Program) : Except Fault Analysis :=
  run Pass.standard p

end Analysis

end Sema
