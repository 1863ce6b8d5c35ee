import Sema.Diagnostic.Cause

/-!
A fault: a cause, its place, and the innermost declaration around it when one is known. A fault
can be shown with the source line it is about.
-/

namespace Sema

structure Fault where
  cause : Cause
  location : Location
  /-- The name of the innermost enclosing declaration. -/
  enclosing : Option String := none
  deriving DecidableEq, Repr

namespace Fault

/-- Records an enclosing declaration, unless a nearer one was recorded before. -/
def within (f : Fault) (name : String) : Fault :=
  { f with enclosing := f.enclosing <|> some name }

def enclosingText (f : Fault) : String :=
  match f.enclosing with
  | some name => " (in " ++ quoted name ++ ")"
  | none => ""

def message (f : Fault) : String :=
  f.location.display ++ ": " ++ f.cause.message ++ f.enclosingText

end Fault

/-! ### Source lines -/

namespace SourceText

/-- Lines end at a line feed, or at a carriage return and a line feed. -/
def lines : List Char → List (List Char)
  | [] => [[]]
  | '\r' :: '\n' :: rest => [] :: lines rest
  | '\n' :: rest => [] :: lines rest
  | c :: rest =>
    match lines rest with
    | [] => [[c]]
    | line :: more => (c :: line) :: more

/-- A line by its number, counted from one; a line past the end is empty. -/
def line (source : String) (number : Nat) : String :=
  String.ofList ((lines source.toList).getD (number - 1) [])

end SourceText

namespace Fault

def repeated (c : Char) (count : Nat) : String :=
  String.ofList (List.replicate count c)

/-- The message, the source line and marks under the columns of the fault. Lines and columns count
from one, and there is at least one mark. -/
def render (f : Fault) (source : String) : String :=
  let number := max f.location.line 1
  let gutter := toString number
  let margin := repeated ' ' gutter.length
  let start := max f.location.startColumn 1
  let width := max (f.location.endColumn - start) 1
  "error: " ++ f.cause.message ++ f.enclosingText ++ "\n" ++
    margin ++ "--> " ++ f.location.display ++ "\n" ++
    margin ++ " |\n" ++
    gutter ++ " | " ++ SourceText.line source number ++ "\n" ++
    margin ++ " | " ++ repeated ' ' (start - 1) ++ repeated '^' width ++ "\n"

end Fault

end Sema
