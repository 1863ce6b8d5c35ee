import Sema.Syntax.Describe
import Sema.Typing.Infer
import Sema.Typing.Resolving
import Sema.Typing.TypeExpr

/-!
The rules for expressions. Each expression gets a slot, and where two types meet they are checked
against each other. A rule that needs the type of a variable of the program or of a class demands
that the variable be resolved first.
-/

namespace Sema.Resolve

/-- How a callee is named in messages. -/
def calleeName : Expr → String
  | .identifier name => name.name
  | .member _ _ name => name.name
  | e => e.describe

/-- Which operands an operator takes. -/
def operandFits (op : BinaryOp) (shape : Shape) : Bool :=
  if op.isArithmetic then shape.isNumber || (op = .add && shape.isString)
  else if op.isOrdering then shape.isNumber
  else if op.isLogical then shape.isBoolean
  else true

variable [Access]

/-! ### Names -/

def identifier (demand : NodeId → Resolve Unit) (name : Ident) : Resolve Slot := do
  match (← get).declarationOf? name.name .value with
  | some declaration =>
    demand declaration
    Check.bind name.id (← Check.slotOf declaration)
  | none => fail (.unresolvedName name.name) name.location

/-- The slot of a class or enum that is named where a value could stand, if no value of that name
is visible. -/
def typeName (e : Expr) : Check (Option Slot) := do
  match e with
  | .identifier name =>
    let c ← get
    match c.lookup? name.name .value, c.declarationOf? name.name .type with
    | none, some declaration => return some (← Check.bind name.id (← Check.slotOf declaration))
    | _, _ => return none
  | _ => return none

/-- An operand that may be the name of a type, and whether it is one. -/
def operandOrType (e : Expr) (asValue : Resolve Slot) : Resolve (Slot × Bool) := do
  match ← typeName e with
  | some s => return (s, true)
  | none => return (← asValue, false)

/-- The node of the class around the current scope. -/
def enclosingClass (keyword : String) (location : Location) : Check NodeId := do
  let c ← get
  match (c.enclosing? .object).bind c.scope? with
  | some scope => return scope.node
  | none => fail (.outsideClass keyword) location

def selfRule (node : Node) : Check Slot := do
  let s ← Check.slotOf (← enclosingClass "this" node.location)
  Check.bind node.id s

def superRule (node : Node) : Check Slot := do
  let s ← Check.slotOf (← enclosingClass "super" node.location)
  match (← Check.types).base? s with
  | some base => Check.bind node.id base
  | none => fail (.noBaseClass (← Check.display s)) node.location

/-! ### Calls -/

/-- The parameters of what is called, or nothing for the name of a class, which takes none. -/
def callParameters (node : Node) (callee : Expr) (arguments : Nat) (s : Slot) (isType : Bool) :
    Check (Option (List (String × Slot))) := do
  let t ← Check.types
  match t.get s, isType with
  | .object .., true =>
    if arguments ≠ 0 then
      fail (.argumentCount (calleeName callee) 0 arguments) node.location
    return none
  | .function _ parameters, false =>
    if parameters.length ≠ arguments then
      fail (.argumentCount (calleeName callee) parameters.length arguments) node.location
    return some parameters
  | _, _ => fail (.notCallable (t.display s)) callee.node.location

/-! ### Operators -/

/-- The type of an operand tells what is deferred in the other. -/
def inferOperands (left right : Expr) (l r : Slot) : Check Unit := do
  let t ← Check.types
  if t.hasDeferred l && !t.isIncomplete r then Infer.expr (t.valueOf r) left
  else if t.hasDeferred r && !t.isIncomplete l then Infer.expr (t.valueOf l) right

def isRule (node : Node) (right : Expr) (l r : Slot) : Check Slot := do
  let t ← Check.types
  let complete := !t.isIncomplete l && !t.isIncomplete r
  if complete && !Relation.hierarchy.holds t (t.valueOf l) (t.valueOf r) then
    fail (.mismatch (t.display (t.valueOf l)) (t.display (t.valueOf r)) (.operator .is))
      right.node.location
  Check.setShape node.id .boolean

/-- Operands agree as values and suit the operator, unless one of them is incomplete. -/
def checkOperands (op : BinaryOp) (left right : Expr) (l r lValue rValue : Slot) : Check Unit := do
  let t ← Check.types
  if t.isIncomplete l || t.isIncomplete r then return
  if !Relation.value.holds t l r then
    fail (.mismatch (t.display lValue) (t.display rValue) (.operator op)) right.node.location
  if !operandFits op (t.get lValue) then
    fail (.invalidOperand op (t.display lValue)) left.node.location

def binaryRule (node : Node) (op : BinaryOp) (left right : Expr) (l r : Slot) : Check Slot := do
  let t ← Check.types
  let lValue := t.valueOf l
  let rValue := t.valueOf r
  if (t.get lValue).isVoid || (t.get rValue).isVoid then
    fail (.voidOperand op) node.location
  if op = .is then isRule node right l r
  else
    inferOperands left right l r
    checkOperands op left right l r lValue rValue
    if op.yieldsBoolean then Check.setShape node.id .boolean
    else
      let s ← Check.slotOf node.id
      Check.assign s lValue
      return s

def unaryRule (node : Node) (op : UnaryOp) (operand : Expr) (s : Slot) : Check Slot := do
  let t ← Check.types
  let value := t.valueOf s
  let fits := match op with
    | .neg => (t.get value).isNumber
    | .not => (t.get value).isBoolean
  if !fits && !t.isIncomplete value then
    fail (.invalidUnaryOperand op (t.display value)) operand.node.location
  match op with
  | .not => Check.setShape node.id .boolean
  | .neg =>
    let result ← Check.slotOf node.id
    Check.assign result value
    return result

/-! ### Members, elements and assignments -/

/-- A member of the name of a type has to be an item of an enum, and has the type of the enum. -/
def itemRule (node : Node) (name : Ident) (s : Slot) : Check Slot := do
  let t ← Check.types
  match t.get s with
  | .enum _ enumName items =>
    if t.hasItem items name.name then Check.bind node.id s
    else fail (.unknownItem enumName name.name) name.location
  | _ => fail (.missingMember (t.display s) name.name) name.location

def memberRule (plan : Plan) (demand : NodeId → Resolve Unit) (node : Node) (object : Expr)
    (name : Ident) (s : Slot) : Resolve Slot := do
  let t := (← get).types
  let value := t.valueOf s
  match t.get value with
  | .object _ _ className _ =>
    match t.findField? value name.name with
    | none => fail (.missingMember className name.name) name.location
    | some field =>
      match plan.ownerOfSlot.get? field with
      | some declaration => demand declaration
      | none => pure ()
      Check.bind node.id field
  | _ =>
    if t.isIncomplete value then Check.slotOf node.id
    else fail (.notObject (t.display value)) object.node.location

def indexRule (node : Node) (array position : Expr) (a p : Slot) : Check Slot := do
  let t ← Check.types
  match t.arrayElement? a with
  | none =>
    if t.isIncomplete a then Check.slotOf node.id
    else fail (.notIndexable (t.display a)) array.node.location
  | some element =>
    if !t.isIncomplete p && !(t.get p).isInteger then
      fail (.mismatch NumberType.int.display (t.display p) .index) position.node.location
    Check.bind node.id element

/-- An assignment has the type of its value. -/
def assignRule (node : Node) (value : Expr) (target v : Slot) : Check Slot := do
  let t ← Check.types
  if (t.get v).isVoid || (t.get target).isVoid then fail .voidAssignment node.location
  checkAssignable target value v .assignment
  Check.bind node.id v

/-! ### Array literals -/

/-- Each element fits the anchor or is inferred from it. -/
def checkElements (anchor : Slot) : Nat → List (Expr × Slot) → Check Unit
  | _, [] => pure ()
  | i, (e, s) :: rest => do
    let t ← Check.types
    if t.hasDeferred s then Infer.expr anchor e
    else if !t.isIncomplete s && !t.fits anchor s then
      fail (.mismatch (t.display anchor) (t.display s) (.element i)) e.node.location
    checkElements anchor (i + 1) rest

/-- The first element with a complete type is the anchor that tells the type of all of them. -/
def arrayRule (node : Node) (elements : List Expr) (slots : List Slot) : Check Slot := do
  let t ← Check.types
  let element ← match slots.find? fun s => !t.isIncomplete s with
    | some anchor =>
      checkElements anchor 0 (elements.zip slots)
      Check.alloc ((← Check.types).get anchor)
    | none => Check.alloc .deferred
  Check.setShape node.id (.generic Shape.arrayName [element])

/-! ### All expressions -/

mutual

def expr (plan : Plan) (demand : NodeId → Resolve Unit) : Expr → Resolve Slot
  | .literal node value => Check.setShape node.id (value.shape?.getD .deferred)
  | .identifier name => identifier demand name
  | .self node => selfRule node
  | .super node => superRule node
  | .call node callee arguments => do
    let (s, isType) ← operandOrType callee (expr plan demand callee)
    match ← callParameters node callee arguments.length s isType with
    | none => Check.bind node.id s
    | some parameters =>
      callArguments plan demand (calleeName callee) 0 arguments parameters
      Check.bind node.id ((← get).types.valueOf s)
  | .binary node op left right => do
    let l ← expr plan demand left
    let r ← if op = .is then (·.1) <$> operandOrType right (expr plan demand right)
      else expr plan demand right
    binaryRule node op left right l r
  | .unary node op operand => do
    let s ← expr plan demand operand
    unaryRule node op operand s
  | .member node object name => do
    let (s, isType) ← operandOrType object (expr plan demand object)
    if isType then itemRule node name s else memberRule plan demand node object name s
  | .index node array position => do
    let a ← expr plan demand array
    let p ← expr plan demand position
    indexRule node array position a p
  | .assign node target value => do
    if !target.isAssignable then fail .invalidTarget target.node.location
    let t ← expr plan demand target
    let v ← expr plan demand value
    assignRule node value t v
  | .array node elements => do
    let slots ← exprs plan demand elements
    arrayRule node elements slots
  | .record node fields => do
    let slots ← fieldValues plan demand fields
    Check.setShape node.id (.record (← get).currentOrRoot slots)
  | .shorthand node _ => Check.setShape node.id .deferred

def exprs (plan : Plan) (demand : NodeId → Resolve Unit) : List Expr → Resolve (List Slot)
  | [] => pure []
  | e :: rest => do
    let s ← expr plan demand e
    return s :: (← exprs plan demand rest)

def fieldValues (plan : Plan) (demand : NodeId → Resolve Unit) :
    List FieldValue → Resolve (List (String × Slot))
  | [] => pure []
  | ⟨_, name, value⟩ :: rest => do
    let s ← expr plan demand value
    return (name.name, s) :: (← fieldValues plan demand rest)

/-- Arguments are checked one by one, each before the next is looked at. -/
def callArguments (plan : Plan) (demand : NodeId → Resolve Unit) (callee : String) (i : Nat) :
    List Expr → List (String × Slot) → Resolve Unit
  | argument :: arguments, (parameter, expected) :: parameters => do
    let found ← expr plan demand argument
    checkAssignable expected argument found (.argument callee parameter i)
    callArguments plan demand callee (i + 1) arguments parameters
  | _, _ => pure ()

end

end Sema.Resolve
