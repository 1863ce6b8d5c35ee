import Sema.Syntax.Describe
import Sema.Scope.Basic

/-!
What can be wrong with a program, apart from where, and the wording of each cause.
-/

namespace Sema

/-- Where two types met that do not agree. -/
inductive Site where
  | assignment
  | returned
  | definition
  | operator (op : BinaryOp)
  | condition
  | argument (callee parameter : String) (index : Nat)
  | element (index : Nat)
  | index
  /-- The value does not fit the type that inference was given. -/
  | inference
  deriving DecidableEq, Repr

def Site.describe : Site → String
  | assignment => "in assignment"
  | returned => "in return statement"
  | definition => "in variable definition"
  | operator op => "in operands of " ++ quoted op.symbol
  | condition => "in condition"
  | argument callee parameter i =>
    "in argument " ++ toString i ++ " " ++ quoted parameter ++ " of " ++ quoted callee
  | element i => "in array element " ++ toString i
  | index => "in index"
  | inference => "in inferred value"

/-- Types and nodes are named as they are shown. -/
inductive Cause where
  | redeclared (name : String) (kind : SymbolKind)
  | unresolvedName (name : String)
  | unresolvedType (name : String)
  | typeArgumentCount (name : String) (expected found : Nat)
  | mismatch (expected found : String) (site : Site)
  | incomplete (node found : String)
  | missingMember (type member : String)
  | missingField (record field : String)
  | foreignNotConcrete (name : String)
  | argumentCount (callee : String) (expected found : Nat)
  | missingReturn (function expected : String)
  | lastNotReturn (function : String)
  | untypedVariable (name : String)
  | voidReturnValue
  | missingReturnValue (expected : String)
  | returnOutsideFunction
  | voidOperand (op : BinaryOp)
  | voidAssignment
  | invalidOperand (op : BinaryOp) (found : String)
  | invalidUnaryOperand (op : UnaryOp) (found : String)
  | invalidTarget
  | notCallable (found : String)
  | notObject (found : String)
  | notIndexable (found : String)
  | outsideClass (keyword : String)
  | noBaseClass (object : String)
  | notEnum (item found : String)
  | unknownItem (enum item : String)
  | notRecord (found : String)
  | cyclicInheritance (name : String)
  | ambiguousEntryPoint
  | nullability (found : String)
  | scopeNotFound (node : NodeId)
  deriving DecidableEq, Repr

namespace Cause

def message : Cause → String
  | redeclared name kind =>
    quoted name ++ " is already declared as " ++ kind.describe ++ " in this scope"
  | unresolvedName name => "cannot find " ++ quoted name ++ " in this scope"
  | unresolvedType name => "unknown type " ++ quoted name
  | typeArgumentCount name expected found =>
    quoted name ++ " expects " ++ toString expected ++ " type argument(s), found " ++ toString found
  | mismatch expected found site =>
    "type mismatch " ++ site.describe ++ ": expected " ++ quoted expected ++ ", found " ++
      quoted found
  | incomplete node found => "could not determine the type of " ++ node ++ ": " ++ quoted found
  | missingMember type member => quoted type ++ " has no member " ++ quoted member
  | missingField record field => quoted record ++ " has no field " ++ quoted field
  | foreignNotConcrete name =>
    "extern function " ++ quoted name ++ " must be declared with concrete types"
  | argumentCount callee expected found =>
    quoted callee ++ " expects " ++ toString expected ++ " argument(s), but " ++ toString found ++
      " were provided"
  | missingReturn function expected =>
    "function " ++ quoted function ++ " must return a value of type " ++ quoted expected
  | lastNotReturn function =>
    "the last statement of function " ++ quoted function ++ " must be a return statement"
  | untypedVariable name => quoted name ++ " needs a type annotation or an initial value"
  | voidReturnValue => "a function returning `Void` cannot return a value"
  | missingReturnValue expected =>
    "return statement must provide a value of type " ++ quoted expected
  | returnOutsideFunction => "return statement outside of a function"
  | voidOperand op => "operator " ++ quoted op.symbol ++ " cannot be applied to `Void`"
  | voidAssignment => "cannot assign to or from a `Void` value"
  | invalidOperand op found =>
    "binary operator " ++ quoted op.symbol ++ " cannot be applied to " ++ quoted found
  | invalidUnaryOperand op found =>
    "unary operator " ++ quoted op.symbol ++ " cannot be applied to " ++ quoted found
  | invalidTarget => "left-hand side of an assignment must be a variable, member or index"
  | notCallable found => quoted found ++ " is not callable"
  | notObject found => quoted found ++ " is not an object"
  | notIndexable found => quoted found ++ " cannot be indexed"
  | outsideClass keyword => quoted keyword ++ " can only be used inside a class"
  | noBaseClass object => "`super` used in " ++ quoted object ++ ", which has no base class"
  | notEnum item found => quoted ("." ++ item) ++ " needs an enum type, found " ++ quoted found
  | unknownItem enum item => quoted enum ++ " has no item " ++ quoted item
  | notRecord found => "structure literal needs a structure type, found " ++ quoted found
  | cyclicInheritance name => "class " ++ quoted name ++ " inherits from itself"
  | ambiguousEntryPoint =>
    "top-level statements cannot be combined with an explicit `main` function"
  | nullability found => "`null` needs an optional object type, found " ++ quoted found
  | scopeNotFound node => "no scope was recorded for node " ++ toString node

end Cause

end Sema
