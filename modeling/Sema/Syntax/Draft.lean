import Sema.Syntax.Tree

/-!
Assembling trees. A draft hands out node numbers in the order in which nodes are finished and
stamps them with the position of its cursor; a node ends where its name would end, counted in
bytes of UTF-8.
-/

namespace Sema

structure Cursor where
  file : String := ""
  nextId : NodeId := 1
  line : Nat := 1
  column : Nat := 1
  deriving DecidableEq, Repr

abbrev Draft := StateM Cursor

namespace Draft

/-- Moves the cursor; nodes made from now on stand there. -/
def moveTo (line column : Nat) : Draft Unit :=
  modify fun c => { c with line, column }

def freshId : Draft NodeId :=
  modifyGet fun c => (c.nextId, { c with nextId := c.nextId + 1 })

/-- The stretch of `width` bytes at the cursor, at least one. -/
def span (width : Nat) : Draft Location := do
  let c ← get
  return ⟨c.file, c.line, c.column, c.column + max width 1⟩

def node (width : Nat) : Draft Node := do
  return ⟨← freshId, ← span width⟩

/-- A new node at the place of another. -/
def nodeAt (location : Location) : Draft Node := do
  return ⟨← freshId, location⟩

def ident (name : String) : Draft Ident := do
  return ⟨← node name.utf8ByteSize, name⟩

/-! ### Type annotations -/

def namedType (name : String) (arguments : List TypeExpr) : Draft TypeExpr := do
  let name ← ident name
  return .named (← nodeAt name.location) name arguments

def arrayType (element : TypeExpr) : Draft TypeExpr :=
  namedType "Array" [element]

def optionalType (inner : TypeExpr) : Draft TypeExpr :=
  namedType "Optional" [inner]

def functionType (parameters : List TypeExpr) (returns : Option TypeExpr) : Draft TypeExpr := do
  return .function (← node 1) parameters returns

def fieldType (name : String) (type : TypeExpr) : Draft FieldType := do
  let name ← ident name
  return ⟨← nodeAt name.location, name, type⟩

def recordType (fields : List (String × TypeExpr)) : Draft TypeExpr := do
  let fields ← fields.mapM fun (name, type) => fieldType name type
  return .record (← node 1) fields

def enumItem (name : String) (payload : List TypeExpr) : Draft EnumItem := do
  let name ← ident name
  return ⟨← nodeAt name.location, name, payload⟩

def inlineEnumType (items : List EnumItem) : Draft TypeExpr := do
  return .inlineEnum (← node "enum".utf8ByteSize) items

/-! ### Expressions -/

/-- The bytes a literal takes in the source, quotes included. -/
def literalWidth : Literal → Nat
  | .integer digits | .float digits => digits.utf8ByteSize
  | .string text => text.utf8ByteSize + 2
  | .boolean value => if value then 4 else 5
  | .null => 4

def literal (value : Literal) : Draft Expr := do
  return .literal (← node (literalWidth value)) value

def identifier (name : String) : Draft Expr := do
  return .identifier (← ident name)

def self : Draft Expr := do
  return .self (← node "this".utf8ByteSize)

def super : Draft Expr := do
  return .super (← node "super".utf8ByteSize)

def call (callee : Expr) (arguments : List Expr) : Draft Expr := do
  return .call (← nodeAt callee.node.location) callee arguments

def binary (op : BinaryOp) (left right : Expr) : Draft Expr := do
  return .binary (← nodeAt left.node.location) op left right

def unary (op : UnaryOp) (operand : Expr) : Draft Expr := do
  return .unary (← node 1) op operand

def member (object : Expr) (name : String) : Draft Expr := do
  let name ← ident name
  return .member (← nodeAt name.location) object name

def index (array position : Expr) : Draft Expr := do
  return .index (← nodeAt array.node.location) array position

def assign (target value : Expr) : Draft Expr := do
  return .assign (← nodeAt target.node.location) target value

def array (elements : List Expr) : Draft Expr := do
  return .array (← node 1) elements

def fieldValue (name : String) (value : Expr) : Draft FieldValue := do
  let name ← ident name
  return ⟨← nodeAt name.location, name, value⟩

def record (fields : List (String × Expr)) : Draft Expr := do
  let fields ← fields.mapM fun (name, value) => fieldValue name value
  return .record (← node 1) fields

def shorthand (item : String) : Draft Expr := do
  let item ← ident item
  return .shorthand (← nodeAt item.location) item

/-! ### Statements -/

def variableDecl (name : String) (type : Option TypeExpr) (value : Option Expr) :
    Draft VariableDecl := do
  let name ← ident name
  return ⟨← nodeAt name.location, name, type, value⟩

def block (statements : List Stmt) : Draft Block := do
  return ⟨← node 1, statements⟩

def expressionStmt (value : Expr) : Draft Stmt := do
  return .expression (← nodeAt value.node.location) value

def variableStmt (name : String) (type : Option TypeExpr) (value : Option Expr) :
    Draft Stmt := do
  return .var (← variableDecl name type value)

def returnStmt (value : Option Expr) : Draft Stmt := do
  return .ret (← node "return".utf8ByteSize) value

/-- The blocks are numbered before the statement that holds them. -/
def ifStmt (condition : Expr) (yes : List Stmt) (no : Option (List Stmt)) : Draft Stmt := do
  let yes ← block yes
  let no ← no.mapM block
  return .branch (← node "if".utf8ByteSize) condition yes no

def whileStmt (condition : Expr) (body : List Stmt) : Draft Stmt := do
  let body ← block body
  return .loop (← node "while".utf8ByteSize) condition body

def blockStmt (statements : List Stmt) : Draft Stmt := do
  return .block (← block statements)

/-! ### Declarations -/

def parameter (name : String) (type : TypeExpr) : Draft Parameter := do
  let name ← ident name
  return ⟨← nodeAt name.location, name, type⟩

def classDecl (name : String) (base : Option TypeExpr) (members : List Decl) :
    Draft ClassDecl := do
  let name ← ident name
  return ⟨← nodeAt name.location, name, base, members⟩

def functionDecl (name : String) (parameters : List Parameter) (returns : Option TypeExpr)
    (body : List Stmt) : Draft FunctionDecl := do
  let name ← ident name
  let body ← block body
  return ⟨← nodeAt name.location, name, parameters, returns, body⟩

def enumDecl (name : String) (items : List EnumItem) : Draft EnumDecl := do
  let name ← ident name
  return ⟨← nodeAt name.location, name, items⟩

def foreignDecl (name : String) (parameters : List Parameter) (returns : Option TypeExpr) :
    Draft ForeignDecl := do
  let name ← ident name
  return ⟨← nodeAt name.location, name, parameters, returns⟩

/-- A program stands at the start of its file and records the next free number. -/
def program (declarations : List Decl) (statements : List Stmt) : Draft Program := do
  let id ← freshId
  let c ← get
  return ⟨⟨id, ⟨c.file, 1, 1, 1⟩⟩, declarations, statements, c.nextId⟩

end Draft

end Sema
