import Sema.Context.Action
import Sema.Syntax.Tree

/-!
Types of what is written. A literal has its type by itself, an annotation gets a slot. The name of a
class or enum makes the annotation share the slot of the declaration, so that it follows the
declaration as that is filled in. An annotation that was resolved before is updated in place.
-/

namespace Sema

/-- The type that a literal has by itself. The type of `null` depends on what is expected. -/
def Literal.shape? : Literal → Option Shape
  | .integer _ => some (.number .int)
  | .float _ => some (.number .double)
  | .string _ => some .string
  | .boolean _ => some .boolean
  | .null => none

/-- What becomes of a type name that is not declared: the annotation stays unknown, or it is a
fault. -/
inductive Tolerance where
  | lenient
  | strict
  deriving DecidableEq, Repr

namespace TypeExpr

def isConstructor (name : String) : Bool :=
  name = Shape.arrayName || name = Shape.optionalName

variable [Access]

/-- A name that is neither built in nor a type constructor. -/
def resolveDeclared (tolerance : Tolerance) (node : Node) (name : String) (arguments : Nat) :
    Check Slot := do
  match (← get).declarationOf? name .type with
  | some declaration =>
    if arguments ≠ 0 then fail (.typeArgumentCount name 0 arguments) node.location
    Check.bind node.id (← Check.slotOf declaration)
  | none =>
    match tolerance with
    | .lenient => Check.slotOf node.id
    | .strict => fail (.unresolvedType name) node.location

mutual

def resolve (tolerance : Tolerance) : TypeExpr → Check Slot
  | .named node name arguments =>
    match if arguments.isEmpty then Shape.builtin? name.name else none with
    | some shape => Check.setShape node.id shape
    | none =>
      if isConstructor name.name then
        match arguments with
        | [argument] => do
          let s ← resolve tolerance argument
          Check.setShape node.id (.generic name.name [s])
        | _ => fail (.typeArgumentCount name.name 1 arguments.length) node.location
      else resolveDeclared tolerance node name.name arguments.length
  | .function node parameters returns => do
    let slots ← resolveAll tolerance parameters
    let result ← match returns with
      | some type => resolve tolerance type
      | none => Check.alloc .void
    let named := slots.zipIdx.map fun (s, i) => (toString i, s)
    Check.setShape node.id (.function result named)
  | .record node fields => do
    let resolved ← resolveFields tolerance fields
    Check.setShape node.id (.record (← get).currentOrRoot resolved)
  | .inlineEnum node items => do
    let resolved ← resolveItems tolerance items
    Check.setShape node.id (.inlineEnum (← get).currentOrRoot resolved)

def resolveAll (tolerance : Tolerance) : List TypeExpr → Check (List Slot)
  | [] => pure []
  | type :: rest => do
    let s ← resolve tolerance type
    return s :: (← resolveAll tolerance rest)

def resolveFields (tolerance : Tolerance) : List FieldType → Check (List (String × Slot))
  | [] => pure []
  | ⟨_, name, type⟩ :: rest => do
    let s ← resolve tolerance type
    return (name.name, s) :: (← resolveFields tolerance rest)

/-- An enum item, declared or inline, is typed by what it carries. -/
def resolveItem (tolerance : Tolerance) : EnumItem → Check Slot
  | ⟨node, name, payload⟩ => do
    let slots ← resolveAll tolerance payload
    Check.setShape node.id (.enumItem (← get).currentOrRoot name.name slots)

def resolveItems (tolerance : Tolerance) : List EnumItem → Check (List Slot)
  | [] => pure []
  | item :: rest => do
    let s ← resolveItem tolerance item
    return s :: (← resolveItems tolerance rest)

end

/-- The type of a declaration: its annotation is resolved and copied into its slot. -/
def resolveInto (tolerance : Tolerance) (n : NodeId) (type : TypeExpr) : Check Slot := do
  let declared ← resolve tolerance type
  let s ← Check.slotOf n
  Check.assign s declared
  return s

end TypeExpr

end Sema
