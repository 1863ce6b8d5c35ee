import Sema.Context.Action

/-!
How an analysis treats scopes on its way through a tree: it opens a new one at each node that has
one, it opens those of an earlier walk again, or it leaves scopes alone.
-/

namespace Sema

inductive ScopeMode where
  | fresh
  /-- Function bodies, and all that is in them, are new to the second walk. -/
  | reopen
  | skip
  deriving DecidableEq, Repr

namespace ScopeMode

/-- Whether entering a scope of a kind here opens an old one again. -/
def mustReopen [Access] (mode : ScopeMode) (c : Context) (kind : ScopeKind) : Bool :=
  match mode with
  | reopen => !(kind = .body || c.isInside .function)
  | _ => false

/-- Makes the scope of a node current. -/
def enter [Access] (mode : ScopeMode) (kind : ScopeKind) (n : NodeId) (location : Location) :
    Check Unit := do
  match mode with
  | skip => return
  | _ =>
    if mode.mustReopen (← get) kind then
      let _ ← Check.reopenScope n location
    else
      modify fun c => (c.openScope kind n).2

def leave (mode : ScopeMode) (c : Context) : Context :=
  match mode with
  | skip => c
  | _ => c.closeScope

/-- Runs a step inside the scope of a node. -/
def inScope [Access] {α : Type} (mode : ScopeMode) (kind : ScopeKind) (node : Node)
    (body : Check α) :
    Check α :=
  Action.bracket (mode.enter kind node.id node.location) mode.leave body

end ScopeMode

end Sema
