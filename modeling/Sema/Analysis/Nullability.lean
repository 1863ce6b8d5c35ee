import Sema.Analysis.Completeness

/-!
`null` is a value of optional classes only. After inference every `null` has the type it was
expected to have.
-/

namespace Sema

namespace Nullability

/-- A `null` has the type `Optional<T>` for a class `T`, if it has a type. -/
def check [Access] (c : Context) (e : Expr) : Except Fault Unit :=
  match c.nodeType? e.node.id with
  | none => .ok ()
  | some s =>
    if (c.types.optionalInner? s).any fun inner => (c.types.get inner).isObject then .ok ()
    else .error { cause := .nullability (c.types.display s), location := e.node.location }

def checker [Access] (c : Context) : Visitor (Except Fault) where
  declaration d children := Fault.enclose d.name children
  variableDecl v children := Fault.enclose v.name.name children
  expression e children := do
    if e.isNull then check c e
    children

end Nullability

def Program.checkNulls [Access] (p : Program) (c : Context) : Except Fault Unit :=
  (Nullability.checker c).visitProgram p

end Sema
