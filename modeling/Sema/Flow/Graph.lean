import Sema.Context.Table
import Sema.Syntax.Tree
import Sema.Graph.Closure

/-!
Flow graphs of function bodies. A block runs its statements in order. A conditional ends its block
and a loop has a block of its own, in which its condition is tested; a return ends its block
without successors, and what follows it stands in a block that nothing leads to.
-/

namespace Sema

structure FlowBlock where
  statements : List NodeId := []
  successors : List Nat := []
  /-- Whether the block ends in a return. -/
  returns : Bool := false
  deriving DecidableEq, Repr

/-- The graph of a function. Block 0 is the entry. -/
structure FlowGraph where
  function : NodeId
  blocks : Array FlowBlock
  deriving DecidableEq, Repr

namespace FlowGraph

def block (g : FlowGraph) (i : Nat) : FlowBlock :=
  g.blocks[i]?.getD {}

def entry (g : FlowGraph) : FlowBlock :=
  g.block 0

def successors (g : FlowGraph) (i : Nat) : List Nat :=
  (g.block i).successors

/-- The blocks that no path from the entry leads to, in ascending order. -/
def unreachable (g : FlowGraph) : List Nat :=
  let reached := Graph.reachable g.successors g.blocks.size 0
  (List.range g.blocks.size).filter fun i => i ∉ reached

end FlowGraph

/-! ### Lowering -/

/-- The blocks so far and the one that statements are added to. -/
structure Lowering where
  blocks : Array FlowBlock := #[{}]
  current : Nat := 0
  deriving DecidableEq, Repr

namespace Lowering

/-- Adds an empty block, whose number is the number of blocks before, and turns to it. -/
def startBlock (g : Lowering) : Lowering :=
  ⟨g.blocks.push {}, g.blocks.size⟩

section

variable [Access]

/-- Runs a statement at the end of the current block. -/
def emit (g : Lowering) (id : NodeId) : Lowering :=
  { g with
    blocks := Access.modify g.blocks g.current fun b =>
      { b with statements := b.statements ++ [id] } }

/-- Ends the current block in a return. -/
def finish (g : Lowering) : Lowering :=
  { g with blocks := Access.modify g.blocks g.current fun b => { b with returns := true } }

/-- Leads from one block to another; a block that returns leads nowhere. -/
def edge (g : Lowering) (source target : Nat) : Lowering :=
  { g with blocks := Access.modify g.blocks source fun b =>
      if b.returns || b.successors.contains target then b
      else { b with successors := b.successors ++ [target] } }

/-- Starts a block that `source` leads to. -/
def branchTo (g : Lowering) (source : Nat) : Lowering :=
  let next := g.startBlock
  next.edge source next.current

mutual

def stmt (g : Lowering) : Stmt → Lowering
  | .expression node _ => g.emit node.id
  | .var decl => g.emit decl.id
  | .ret node _ => (g.emit node.id).finish.startBlock
  | .branch node _ yes no =>
    let g := g.emit node.id
    let fork := g.current
    let afterYes := block (g.branchTo fork) yes
    match no with
    | some other =>
      let afterNo := block (afterYes.branchTo fork) other
      let join := afterNo.branchTo afterYes.current
      join.edge afterNo.current join.current
    | none =>
      let join := afterYes.branchTo afterYes.current
      join.edge fork join.current
  | .loop node _ body =>
    let header := (g.branchTo g.current).emit node.id
    let afterBody := block (header.branchTo header.current) body
    (afterBody.edge afterBody.current header.current).branchTo header.current
  | .block b => block g b

def stmts (g : Lowering) : List Stmt → Lowering
  | [] => g
  | s :: rest => stmts (stmt g s) rest

def block (g : Lowering) : Block → Lowering
  | ⟨_, statements⟩ => stmts g statements

end

end

end Lowering

def FunctionDecl.flowGraph [Access] (f : FunctionDecl) : FlowGraph :=
  ⟨f.id, (Lowering.block {} f.body).blocks⟩

end Sema
