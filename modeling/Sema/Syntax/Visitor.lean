import Sema.Syntax.Tree

/-!
Walking a tree in source order. A visitor has one hook for each family of nodes. A hook gets the
node and the action that visits its children, and decides what to do around it; the hook that is
given by default only descends. In a monad with failure the first failing hook ends the walk.
-/

namespace Sema

structure Visitor (m : Type → Type) where
  program : Program → m Unit → m Unit := fun _ children => children
  declaration : Decl → m Unit → m Unit := fun _ children => children
  object : ClassDecl → m Unit → m Unit := fun _ children => children
  function : FunctionDecl → m Unit → m Unit := fun _ children => children
  variableDecl : VariableDecl → m Unit → m Unit := fun _ children => children
  enum : EnumDecl → m Unit → m Unit := fun _ children => children
  enumItem : EnumItem → m Unit → m Unit := fun _ children => children
  foreign : ForeignDecl → m Unit → m Unit := fun _ children => children
  parameter : Parameter → m Unit → m Unit := fun _ children => children
  block : Block → m Unit → m Unit := fun _ children => children
  statement : Stmt → m Unit → m Unit := fun _ children => children
  expression : Expr → m Unit → m Unit := fun _ children => children
  typeExpr : TypeExpr → m Unit → m Unit := fun _ children => children

namespace Visitor

variable {m : Type → Type} [Monad m] (v : Visitor m)

/-! ### Type annotations -/

mutual

def visitType : TypeExpr → m Unit
  | .named node name arguments =>
    v.typeExpr (.named node name arguments) (visitTypes arguments)
  | .function node parameters returns =>
    v.typeExpr (.function node parameters returns) do
      visitTypes parameters
      match returns with
      | some type => visitType type
      | none => pure ()
  | .record node fields => v.typeExpr (.record node fields) (visitFieldTypes fields)
  | .inlineEnum node items => v.typeExpr (.inlineEnum node items) (visitEnumItems items)

def visitTypes : List TypeExpr → m Unit
  | [] => pure ()
  | type :: rest => do visitType type; visitTypes rest

def visitFieldTypes : List FieldType → m Unit
  | [] => pure ()
  | ⟨_, _, type⟩ :: rest => do visitType type; visitFieldTypes rest

def visitEnumItem : EnumItem → m Unit
  | ⟨node, name, payload⟩ => v.enumItem ⟨node, name, payload⟩ (visitTypes payload)

def visitEnumItems : List EnumItem → m Unit
  | [] => pure ()
  | item :: rest => do visitEnumItem item; visitEnumItems rest

end

def visitType? : Option TypeExpr → m Unit
  | some type => v.visitType type
  | none => pure ()

/-! ### Expressions -/

mutual

def visitExpr : Expr → m Unit
  | .literal node value => v.expression (.literal node value) (pure ())
  | .identifier name => v.expression (.identifier name) (pure ())
  | .self node => v.expression (.self node) (pure ())
  | .super node => v.expression (.super node) (pure ())
  | .call node callee arguments =>
    v.expression (.call node callee arguments) do visitExpr callee; visitExprs arguments
  | .binary node op left right =>
    v.expression (.binary node op left right) do visitExpr left; visitExpr right
  | .unary node op operand => v.expression (.unary node op operand) (visitExpr operand)
  | .member node object name => v.expression (.member node object name) (visitExpr object)
  | .index node array position =>
    v.expression (.index node array position) do visitExpr array; visitExpr position
  | .assign node target value =>
    v.expression (.assign node target value) do visitExpr target; visitExpr value
  | .array node elements => v.expression (.array node elements) (visitExprs elements)
  | .record node fields => v.expression (.record node fields) (visitFieldValues fields)
  | .shorthand node item => v.expression (.shorthand node item) (pure ())

def visitExprs : List Expr → m Unit
  | [] => pure ()
  | e :: rest => do visitExpr e; visitExprs rest

def visitFieldValues : List FieldValue → m Unit
  | [] => pure ()
  | ⟨_, _, value⟩ :: rest => do visitExpr value; visitFieldValues rest

end

def visitExpr? : Option Expr → m Unit
  | some e => v.visitExpr e
  | none => pure ()

/-! ### Statements -/

def visitVariable (decl : VariableDecl) : m Unit :=
  v.variableDecl decl do v.visitType? decl.type; v.visitExpr? decl.value

mutual

def visitStmt : Stmt → m Unit
  | .expression node value => v.statement (.expression node value) (v.visitExpr value)
  | .var decl => v.statement (.var decl) (v.visitVariable decl)
  | .ret node value => v.statement (.ret node value) (v.visitExpr? value)
  | .branch node condition yes no =>
    v.statement (.branch node condition yes no) do
      v.visitExpr condition
      visitBlock yes
      match no with
      | some b => visitBlock b
      | none => pure ()
  | .loop node condition body =>
    v.statement (.loop node condition body) do v.visitExpr condition; visitBlock body
  | .block b => v.statement (.block b) (visitBlock b)

def visitStmts : List Stmt → m Unit
  | [] => pure ()
  | s :: rest => do visitStmt s; visitStmts rest

def visitBlock : Block → m Unit
  | ⟨node, statements⟩ => v.block ⟨node, statements⟩ (visitStmts statements)

end

/-! ### Declarations -/

def visitParameter (p : Parameter) : m Unit :=
  v.parameter p (v.visitType p.type)

def visitParameters : List Parameter → m Unit
  | [] => pure ()
  | p :: rest => do v.visitParameter p; visitParameters rest

def visitFunction (f : FunctionDecl) : m Unit :=
  v.function f do v.visitParameters f.parameters; v.visitType? f.returns; v.visitBlock f.body

def visitEnum (e : EnumDecl) : m Unit :=
  v.enum e (v.visitEnumItems e.items)

def visitForeign (f : ForeignDecl) : m Unit :=
  v.foreign f do v.visitParameters f.parameters; v.visitType? f.returns

mutual

def visitDecl : Decl → m Unit
  | .object c => v.declaration (.object c) (visitClass c)
  | .function f => v.declaration (.function f) (v.visitFunction f)
  | .var decl => v.declaration (.var decl) (v.visitVariable decl)
  | .enum e => v.declaration (.enum e) (v.visitEnum e)
  | .foreign f => v.declaration (.foreign f) (v.visitForeign f)

def visitClass : ClassDecl → m Unit
  | ⟨node, name, base, members⟩ =>
    v.object ⟨node, name, base, members⟩ do v.visitType? base; visitDecls members

def visitDecls : List Decl → m Unit
  | [] => pure ()
  | d :: rest => do visitDecl d; visitDecls rest

end

def visitProgram (p : Program) : m Unit :=
  v.program p do v.visitDecls p.declarations; v.visitStmts p.statements

end Visitor

end Sema
