import Sema.Types.Store

/-!
Types as they are written. A type that contains itself is cut short where it recurs.
-/

namespace Sema

def commaSeparated (parts : List String) : String :=
  ", ".intercalate parts

namespace Shape

/-- One layer of a type, given how to write the slots in it. -/
def display (inner : Slot → String) : Shape → String
  | void => "Void"
  | unknown => "<unknown>"
  | deferred => "<deferred>"
  | boolean => "Bool"
  | string => "String"
  | number type => type.display
  | function returns parameters =>
    "(" ++ commaSeparated (parameters.map fun p => inner p.2) ++ ") -> " ++ inner returns
  | generic name arguments => name ++ "<" ++ commaSeparated (arguments.map inner) ++ ">"
  | record _ fields =>
    "\x7b" ++ commaSeparated (fields.map fun f => f.1 ++ ": " ++ inner f.2) ++ "\x7d"
  | object _ _ name _ => name
  | enum _ name _ => name
  | enumItem _ name payload =>
    if payload.isEmpty then name else name ++ "(" ++ commaSeparated (payload.map inner) ++ ")"
  | inlineEnum _ items => "enum \x7b " ++ commaSeparated (items.map inner) ++ " \x7d"

end Shape

namespace TypeStore

/-- Writes the type in `s` inside the types in `path`, to a depth of `fuel`. -/
def displayWithin [Access] (t : TypeStore) : Nat → List Slot → Slot → String
  | 0, _, _ => "..."
  | fuel + 1, path, s =>
    if s ∈ path then "..." else (t.get s).display (t.displayWithin fuel (s :: path))

/-- The type in `s` as it is written. Along a path into a type slots do not repeat, so the depth
never exceeds the size of the store. -/
def display [Access] (t : TypeStore) (s : Slot) : String :=
  t.displayWithin (t.size + 1) [] s

end TypeStore

end Sema
