import Sema.Syntax.Tree

/-!
Short descriptions of tree nodes for messages, and the questions about a single node that the
typing rules ask.
-/

namespace Sema

/-- A name between back quotes. -/
def quoted (name : String) : String :=
  "`" ++ name ++ "`"

def Decl.describe (d : Decl) : String :=
  let kind := match d with
    | .object _ => "class"
    | .function _ => "function"
    | .var _ => "variable"
    | .enum _ => "enum"
    | .foreign _ => "extern function"
  kind ++ " " ++ quoted d.name

def VariableDecl.describe (v : VariableDecl) : String :=
  "variable " ++ quoted v.name.name

def EnumItem.describe (item : EnumItem) : String :=
  "enum item " ++ quoted item.name.name

def Parameter.describe (p : Parameter) : String :=
  "parameter " ++ quoted p.name.name

def Stmt.describe : Stmt → String
  | .expression .. => "expression statement"
  | .var v => v.describe
  | .ret .. => "return statement"
  | .branch .. => "if statement"
  | .loop .. => "while statement"
  | .block _ => "block"

def Literal.describe : Literal → String
  | .integer digits | .float digits => "literal " ++ quoted digits
  | .string text => "literal \"" ++ text ++ "\""
  | .boolean value => "literal " ++ quoted (if value then "true" else "false")
  | .null => "`null`"

def Expr.describe : Expr → String
  | .literal _ value => value.describe
  | .identifier name => "identifier " ++ quoted name.name
  | .self _ => "`this`"
  | .super _ => "`super`"
  | .call .. => "call"
  | .binary _ op .. => quoted op.symbol ++ " expression"
  | .unary _ op _ => quoted op.symbol ++ " expression"
  | .member _ _ name => "member " ++ quoted name.name
  | .index .. => "index expression"
  | .assign .. => "assignment"
  | .array .. => "array literal"
  | .record .. => "structure literal"
  | .shorthand _ item => quoted ("." ++ item.name)

def TypeExpr.describe : TypeExpr → String
  | .named _ name _ => "type " ++ quoted name.name
  | .function .. => "function type"
  | .record .. => "structure type"
  | .inlineEnum .. => "inline enum type"

def Decl.isVariable : Decl → Bool
  | .var _ => true
  | _ => false

/-- Whether a member of a class is one of its fields; functions count as fields. -/
def Decl.isField : Decl → Bool
  | .var _ | .function _ => true
  | _ => false

def Expr.isNull : Expr → Bool
  | .literal _ .null => true
  | _ => false

/-- Whether a value may be assigned to the expression. -/
def Expr.isAssignable : Expr → Bool
  | .identifier _ | .member .. | .index .. => true
  | _ => false

def Stmt.isReturn : Stmt → Bool
  | .ret .. => true
  | _ => false

def Block.endsWithReturn (b : Block) : Bool :=
  b.statements.getLast?.any Stmt.isReturn

/-- The first top-level function with this name. -/
def Program.function? (p : Program) (name : String) : Option FunctionDecl :=
  p.declarations.findSome? fun
    | .function f => if f.name.name = name then some f else none
    | _ => none

end Sema
