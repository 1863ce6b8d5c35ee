import Sema.Types.Number

/-!
The shape of a type: one layer of it. A shape never holds another type, only the number of the
slot that does, so that classes can refer to each other and a placeholder can be filled in place
after the fact.
-/

namespace Sema

/-- Number of a slot of the type store. -/
abbrev Slot := Nat

/-- Number of a scope. -/
abbrev ScopeId := Nat

inductive Shape where
  | void
  /-- A type that could not be resolved so far. -/
  | unknown
  /-- A type that is to be inferred from what is expected. -/
  | deferred
  | boolean
  | string
  | number (type : NumberType)
  | function (returns : Slot) (parameters : List (String × Slot))
  /-- A built-in type constructor, `Array` or `Optional`, and its arguments. -/
  | generic (name : String) (arguments : List Slot)
  | record (scope : ScopeId) (fields : List (String × Slot))
  /-- A class, with the scope of its body. -/
  | object (scope : ScopeId) (base : Option Slot) (name : String) (fields : List (String × Slot))
  | enum (scope : ScopeId) (name : String) (items : List Slot)
  | enumItem (scope : ScopeId) (name : String) (payload : List Slot)
  | inlineEnum (scope : ScopeId) (items : List Slot)
  deriving DecidableEq, Repr

namespace Shape

def arrayName : String := "Array"

def optionalName : String := "Optional"

/-- The types that a plain name denotes everywhere. -/
def builtin? (name : String) : Option Shape :=
  if name = "Void" then some void
  else if name = "Bool" then some boolean
  else if name = "String" then some string
  else (NumberType.ofName? name).map number

def isVoid : Shape → Bool
  | void => true
  | _ => false

def isBoolean : Shape → Bool
  | boolean => true
  | _ => false

def isString : Shape → Bool
  | string => true
  | _ => false

def isNumber : Shape → Bool
  | number _ => true
  | _ => false

def isInteger : Shape → Bool
  | number type => type.isInteger
  | _ => false

def isObject : Shape → Bool
  | object .. => true
  | _ => false

def isGeneric (constructor : String) : Shape → Bool
  | generic name _ => name = constructor
  | _ => false

def isDeferred : Shape → Bool
  | deferred => true
  | _ => false

/-- A type that still has to be found out, one way or the other. -/
def isPlaceholder : Shape → Bool
  | unknown | deferred => true
  | _ => false

def isEnumItem (item : String) : Shape → Bool
  | enumItem _ name _ => name = item
  | _ => false

/-- Classes and enums go by their name. -/
def nominalName? : Shape → Option String
  | object _ _ name _ => some name
  | enum _ name _ => some name
  | _ => none

def base? : Shape → Option Slot
  | object _ base _ _ => base
  | _ => none

/-- The fields and methods of a class. -/
def fields : Shape → List (String × Slot)
  | object _ _ _ fields => fields
  | _ => []

/-- The argument of `Array<T>` and of the other constructors that take a single one. -/
def argumentOf? (constructor : String) : Shape → Option Slot
  | generic name [argument] => if name = constructor then some argument else none
  | _ => none

/-- What a class grows by when a member of it is collected. -/
def addField (name : String) (slot : Slot) : Shape → Shape
  | object scope base className fields => object scope base className (fields ++ [(name, slot)])
  | shape => shape

/-- The slots a type is made of. Classes and enums go by name, so nothing is seen through them. -/
def components : Shape → List Slot
  | function returns parameters => returns :: parameters.map (·.2)
  | generic _ arguments => arguments
  | enumItem _ _ payload => payload
  | record _ fields => fields.map (·.2)
  | inlineEnum _ items => items
  | _ => []

/-- The name of the variant, for a type whose contents are not to be shown. -/
def kindName : Shape → String
  | void => "void"
  | unknown => "unknown"
  | deferred => "deferred"
  | boolean => "boolean"
  | string => "string"
  | number _ => "number"
  | function .. => "function"
  | generic .. => "generic"
  | record .. => "structure"
  | object .. => "object"
  | enum .. => "enum"
  | enumItem .. => "enum item"
  | inlineEnum .. => "inline enum"

end Shape

end Sema
