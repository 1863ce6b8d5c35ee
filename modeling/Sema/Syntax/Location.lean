/-!
Places in a source text, and the identity of a tree node.
-/

namespace Sema

/-- Number of a tree node, unique in one program. Zero is never given out. -/
abbrev NodeId := Nat

structure Location where
  file : String := ""
  line : Nat
  startColumn : Nat
  endColumn : Nat
  deriving DecidableEq, Repr

namespace Location

/-- The start of the place; a nameless file is left out. -/
def display (l : Location) : String :=
  if l.file.isEmpty then toString l.line ++ ":" ++ toString l.startColumn
  else l.file ++ ":" ++ toString l.line ++ ":" ++ toString l.startColumn

end Location

/-- What every tree node carries. -/
structure Node where
  id : NodeId
  location : Location
  deriving DecidableEq, Repr

end Sema
