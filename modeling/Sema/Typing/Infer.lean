import Sema.Context.Action
import Sema.Syntax.Describe
import Sema.Types.Relation

/-!
Inference from an expected type. An empty array, `null` and an enum item alone cannot type
themselves. When such a value meets a complete type, the type is carried into the value and
written into the slots that are still deferred. Arrays, records and enum items look through one
`Optional`; `null` takes the optional type itself.
-/

namespace Sema

variable [Access]

namespace TypeStore

/-- An expected type with one `Optional` taken off. -/
def unwrapped (t : TypeStore) (s : Slot) : Slot :=
  (t.optionalInner? s).getD s

end TypeStore

namespace Infer

/-- An enum item alone gets the expected enum, which has to have the item. -/
def shorthand (node : Node) (item : String) (expected : Slot) : Check Unit := do
  let t ← Check.types
  match t.get expected with
  | .enum _ _ items | .inlineEnum _ items =>
    if t.hasItem items item then
      let s ← Check.slotOf node.id
      Check.assign s expected
    else fail (.unknownItem (t.display expected) item) node.location
  | _ => fail (.notEnum item (t.display expected)) node.location

mutual

def expr (expected : Slot) : Expr → Check Unit
  | .array node elements => do
    let wanted := (← Check.types).unwrapped expected
    let literal ← Check.slotOf node.id
    let t ← Check.types
    match t.arrayElement? literal with
    | none => pure ()
    | some element =>
      match t.arrayElement? wanted with
      | none =>
        fail (.mismatch (t.display wanted) (t.display literal) .inference) node.location
      | some wantedElement =>
        exprs wantedElement elements
        if (← Check.types).isIncomplete element then Check.assign element wantedElement
  | .record node values => do
    let t ← Check.types
    let wanted := t.unwrapped expected
    match t.get wanted with
    | .record _ types => fields wanted types values
    | _ => fail (.notRecord (t.display wanted)) node.location
  | .shorthand node item => do
    shorthand node item.name ((← Check.types).unwrapped expected)
  | .literal node .null => do
    let s ← Check.slotOf node.id
    Check.assign s expected
  | .binary _ _ left right => do
    let l ← Check.slotOf left.node.id
    let r ← Check.slotOf right.node.id
    let t ← Check.types
    match t.hasDeferred l, t.hasDeferred r with
    | true, false => expr r left
    | false, true => expr l right
    | _, _ => pure ()
  | _ => pure ()

def exprs (expected : Slot) : List Expr → Check Unit
  | [] => pure ()
  | e :: rest => do expr expected e; exprs expected rest

/-- Each value gets the type of its field in the expected record. -/
def fields (record : Slot) (types : List (String × Slot)) : List FieldValue → Check Unit
  | [] => pure ()
  | ⟨node, name, value⟩ :: rest => do
    match types.lookup name.name with
    | some type => expr type value
    | none => fail (.missingField (← Check.display record) name.name) node.location
    fields record types rest

end

end Infer

/-! ### Values that meet a type -/

namespace TypeStore

/-- A value fits a type it agrees with, and an `Optional` of such a type. -/
def fits (t : TypeStore) (target found : Slot) : Bool :=
  Relation.plain.holds t target found ||
    (t.optionalInner? target).any fun inner => Relation.plain.holds t inner found

end TypeStore

/-- Checks that a value may be stored where a type is expected, after what is deferred in the
value has been inferred. Nothing is said while either side is incomplete. -/
def checkAssignable (target : Slot) (value : Expr) (found : Slot) (site : Site) : Check Unit := do
  let t ← Check.types
  if t.hasDeferred found && !t.isIncomplete target then Infer.expr target value
  let t ← Check.types
  if t.isIncomplete target || t.isIncomplete found || t.fits target found then return
  fail (.mismatch (t.display target) (t.display found) site) value.node.location

end Sema
