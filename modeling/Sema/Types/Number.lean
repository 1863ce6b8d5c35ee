/-!
Number types: a kind and a width in bits. The two that literals have go by a short name.
-/

namespace Sema

inductive NumberKind where
  | signed
  | unsigned
  | float
  deriving DecidableEq, Repr

structure NumberType where
  kind : NumberKind
  width : Nat
  deriving DecidableEq, Repr

namespace NumberType

/-- The type of integer literals. -/
def int : NumberType := ⟨.signed, 32⟩

/-- The type of float literals. -/
def double : NumberType := ⟨.float, 64⟩

/-- Every name a number type can be written with. `Int` and `Int32` name one type, and so do
`Float` and `Float64`. -/
def names : List (String × NumberType) :=
  [("Int", int), ("Int8", ⟨.signed, 8⟩), ("Int16", ⟨.signed, 16⟩), ("Int32", ⟨.signed, 32⟩),
    ("Int64", ⟨.signed, 64⟩), ("UInt8", ⟨.unsigned, 8⟩), ("UInt16", ⟨.unsigned, 16⟩),
    ("UInt32", ⟨.unsigned, 32⟩), ("UInt64", ⟨.unsigned, 64⟩), ("Float", double),
    ("Float32", ⟨.float, 32⟩), ("Float64", ⟨.float, 64⟩)]

def ofName? (name : String) : Option NumberType :=
  names.lookup name

def isInteger (n : NumberType) : Bool :=
  n.kind != .float

/-- The canonical name: `Int` and `Float` without a width where one is available. -/
def display : NumberType → String
  | ⟨.signed, 32⟩ => "Int"
  | ⟨.float, 64⟩ => "Float"
  | ⟨.signed, width⟩ => "Int" ++ toString width
  | ⟨.unsigned, width⟩ => "UInt" ++ toString width
  | ⟨.float, width⟩ => "Float" ++ toString width

end NumberType

end Sema
