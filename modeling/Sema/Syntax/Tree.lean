import Sema.Syntax.Location
import Sema.Syntax.Operator

/-!
Syntax trees: type annotations, expressions, statements, declarations and whole programs. Every
node carries its number and its place.
-/

namespace Sema

structure Ident extends Node where
  name : String
  deriving DecidableEq, Repr

/-! ### Type annotations -/

mutual

/-- A type as it is written. -/
inductive TypeExpr where
  | named (node : Node) (name : Ident) (arguments : List TypeExpr)
  | function (node : Node) (parameters : List TypeExpr) (returns : Option TypeExpr)
  | record (node : Node) (fields : List FieldType)
  | inlineEnum (node : Node) (items : List EnumItem)

structure FieldType extends Node where
  name : Ident
  type : TypeExpr

structure EnumItem extends Node where
  name : Ident
  payload : List TypeExpr

end

/-! ### Expressions -/

/-- Numbers keep their digits as written. -/
inductive Literal where
  | integer (digits : String)
  | float (digits : String)
  | string (text : String)
  | boolean (value : Bool)
  | null
  deriving DecidableEq, Repr

mutual

inductive Expr where
  | literal (node : Node) (value : Literal)
  | identifier (name : Ident)
  | self (node : Node)
  | super (node : Node)
  | call (node : Node) (callee : Expr) (arguments : List Expr)
  | binary (node : Node) (op : BinaryOp) (left right : Expr)
  | unary (node : Node) (op : UnaryOp) (operand : Expr)
  | member (node : Node) (object : Expr) (name : Ident)
  | index (node : Node) (array position : Expr)
  | assign (node : Node) (target value : Expr)
  | array (node : Node) (elements : List Expr)
  | record (node : Node) (fields : List FieldValue)
  /-- An enum item alone; its enum comes from the type that is expected. -/
  | shorthand (node : Node) (item : Ident)

structure FieldValue extends Node where
  name : Ident
  value : Expr

end

/-! ### Statements -/

structure VariableDecl extends Node where
  name : Ident
  type : Option TypeExpr
  value : Option Expr

mutual

inductive Stmt where
  | expression (node : Node) (value : Expr)
  | var (decl : VariableDecl)
  | ret (node : Node) (value : Option Expr)
  | branch (node : Node) (condition : Expr) (yes : Block) (no : Option Block)
  | loop (node : Node) (condition : Expr) (body : Block)
  | block (b : Block)

structure Block extends Node where
  statements : List Stmt

end

/-! ### Declarations -/

structure Parameter extends Node where
  name : Ident
  type : TypeExpr

structure FunctionDecl extends Node where
  name : Ident
  parameters : List Parameter
  returns : Option TypeExpr
  body : Block

structure EnumDecl extends Node where
  name : Ident
  items : List EnumItem

/-- A function without a body, provided by the host. -/
structure ForeignDecl extends Node where
  name : Ident
  parameters : List Parameter
  returns : Option TypeExpr

mutual

inductive Decl where
  | object (decl : ClassDecl)
  | function (decl : FunctionDecl)
  | var (decl : VariableDecl)
  | enum (decl : EnumDecl)
  | foreign (decl : ForeignDecl)

structure ClassDecl extends Node where
  name : Ident
  base : Option TypeExpr
  members : List Decl

end

structure Program extends Node where
  declarations : List Decl
  /-- Statements outside every function. -/
  statements : List Stmt
  /-- The next free node number. -/
  nextId : NodeId

/-! ### The node of a tree -/

def TypeExpr.node : TypeExpr → Node
  | .named node .. | .function node .. | .record node .. | .inlineEnum node .. => node

def Expr.node : Expr → Node
  | .literal node .. | .self node | .super node | .call node .. | .binary node .. | .unary node ..
  | .member node .. | .index node .. | .assign node .. | .array node .. | .record node ..
  | .shorthand node .. => node
  | .identifier name => name.toNode

def Stmt.node : Stmt → Node
  | .expression node .. | .ret node .. | .branch node .. | .loop node .. => node
  | .var decl => decl.toNode
  | .block b => b.toNode

def Decl.node : Decl → Node
  | .object decl => decl.toNode
  | .function decl => decl.toNode
  | .var decl => decl.toNode
  | .enum decl => decl.toNode
  | .foreign decl => decl.toNode

def Decl.ident : Decl → Ident
  | .object decl => decl.name
  | .function decl => decl.name
  | .var decl => decl.name
  | .enum decl => decl.name
  | .foreign decl => decl.name

def Decl.name (decl : Decl) : String :=
  decl.ident.name

end Sema
