/-!
The operators of expressions and the families that the typing rules tell apart.
-/

namespace Sema

inductive UnaryOp where
  | neg
  | not
  deriving DecidableEq, Repr

def UnaryOp.symbol : UnaryOp → String
  | .neg => "-"
  | .not => "!"

inductive BinaryOp where
  | add | sub | mul | div | mod
  | eq | ne | lt | le | gt | ge
  | and | or
  | is
  deriving DecidableEq, Repr

namespace BinaryOp

def symbol : BinaryOp → String
  | add => "+"
  | sub => "-"
  | mul => "*"
  | div => "/"
  | mod => "%"
  | eq => "=="
  | ne => "!="
  | lt => "<"
  | le => "<="
  | gt => ">"
  | ge => ">="
  | and => "&&"
  | or => "||"
  | is => "is"

def isArithmetic : BinaryOp → Bool
  | add | sub | mul | div | mod => true
  | _ => false

def isOrdering : BinaryOp → Bool
  | lt | le | gt | ge => true
  | _ => false

def isLogical : BinaryOp → Bool
  | and | or => true
  | _ => false

/-- Every operator that is not arithmetic gives a `Bool`. -/
def yieldsBoolean (op : BinaryOp) : Bool :=
  !op.isArithmetic

end BinaryOp

end Sema
