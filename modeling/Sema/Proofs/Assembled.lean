import Mathlib.Algebra.BigOperators.Group.List.Basic
import Mathlib.Algebra.Order.Group.Multiset
import Mathlib.Tactic.Abel
import Sema.Proofs.Accepted
import Sema.Proofs.StartingState
import Sema.Syntax.Draft

/-!
Node numbers. A program is assembled by calls that take finished pieces and make a new one of them;
where every piece goes into one other piece, the numbers of all nodes in the program are those that
were handed out, each of them once. Rearranging the program moves numbers about, and an entry point
takes the next ones.

Every call is a sequence of steps that hand out a number or do nothing, and `Numbers` says of each
that the numbers in what it gives are those in what it takes and the new ones. The rule for
sequences then carries it to every call, and the rule for calls to everything that is assembled.
-/

namespace Sema

open Sema.Action

/-! ### The numbers in a tree -/

mutual

def TypeExpr.ids : TypeExpr → Multiset NodeId
  | .named node name arguments => {name.id} + {node.id} + TypeExpr.idsAll arguments
  | .function node parameters returns =>
    {node.id} + (TypeExpr.idsAll parameters + match returns with
      | some type => type.ids
      | none => 0)
  | .record node fields => {node.id} + FieldType.idsAll fields
  | .inlineEnum node items => {node.id} + EnumItem.idsAll items

def TypeExpr.idsAll : List TypeExpr → Multiset NodeId
  | [] => 0
  | type :: rest => type.ids + TypeExpr.idsAll rest

def FieldType.ids : FieldType → Multiset NodeId
  | ⟨node, name, type⟩ => {name.id} + {node.id} + type.ids

def FieldType.idsAll : List FieldType → Multiset NodeId
  | [] => 0
  | field :: rest => field.ids + FieldType.idsAll rest

def EnumItem.ids : EnumItem → Multiset NodeId
  | ⟨node, name, payload⟩ => {name.id} + {node.id} + TypeExpr.idsAll payload

def EnumItem.idsAll : List EnumItem → Multiset NodeId
  | [] => 0
  | item :: rest => item.ids + EnumItem.idsAll rest

end

mutual

/-- An identifier and its name are one node. -/
def Expr.ids : Expr → Multiset NodeId
  | .literal node _ | .self node | .super node => {node.id}
  | .identifier name => {name.id}
  | .call node callee arguments => {node.id} + (callee.ids + Expr.idsAll arguments)
  | .binary node _ left right => {node.id} + (left.ids + right.ids)
  | .unary node _ operand => {node.id} + operand.ids
  | .member node object name => {name.id} + {node.id} + object.ids
  | .index node array position => {node.id} + (array.ids + position.ids)
  | .assign node target value => {node.id} + (target.ids + value.ids)
  | .array node elements => {node.id} + Expr.idsAll elements
  | .record node fields => {node.id} + FieldValue.idsAll fields
  | .shorthand node item => {item.id} + {node.id}

def Expr.idsAll : List Expr → Multiset NodeId
  | [] => 0
  | e :: rest => e.ids + Expr.idsAll rest

def FieldValue.ids : FieldValue → Multiset NodeId
  | ⟨node, name, value⟩ => {name.id} + {node.id} + value.ids

def FieldValue.idsAll : List FieldValue → Multiset NodeId
  | [] => 0
  | field :: rest => field.ids + FieldValue.idsAll rest

end

def TypeExpr.ids? (type : Option TypeExpr) : Multiset NodeId :=
  type.elim 0 TypeExpr.ids

def Expr.ids? (e : Option Expr) : Multiset NodeId :=
  e.elim 0 Expr.ids

def VariableDecl.ids (v : VariableDecl) : Multiset NodeId :=
  {v.name.id} + {v.id} + (TypeExpr.ids? v.type + Expr.ids? v.value)

mutual

/-- A variable statement and a block statement are one node with what they hold. -/
def Stmt.ids : Stmt → Multiset NodeId
  | .expression node value => {node.id} + value.ids
  | .var v => v.ids
  | .ret node value => {node.id} + Expr.ids? value
  | .branch node test yes none => {node.id} + (test.ids + yes.ids)
  | .branch node test yes (some no) => {node.id} + (test.ids + (yes.ids + no.ids))
  | .loop node test body => {node.id} + (test.ids + body.ids)
  | .block b => b.ids

def Stmt.idsAll : List Stmt → Multiset NodeId
  | [] => 0
  | s :: rest => s.ids + Stmt.idsAll rest

def Block.ids : Block → Multiset NodeId
  | ⟨node, statements⟩ => {node.id} + Stmt.idsAll statements

end

def Parameter.ids (q : Parameter) : Multiset NodeId :=
  {q.name.id} + {q.id} + q.type.ids

def Parameter.idsAll (qs : List Parameter) : Multiset NodeId :=
  (qs.map Parameter.ids).sum

def FunctionDecl.ids (f : FunctionDecl) : Multiset NodeId :=
  {f.name.id} + {f.id} +
    (Parameter.idsAll f.parameters + (TypeExpr.ids? f.returns + f.body.ids))

def EnumDecl.ids (e : EnumDecl) : Multiset NodeId :=
  {e.name.id} + {e.id} + EnumItem.idsAll e.items

def ForeignDecl.ids (f : ForeignDecl) : Multiset NodeId :=
  {f.name.id} + {f.id} + (Parameter.idsAll f.parameters + TypeExpr.ids? f.returns)

mutual

def Decl.ids : Decl → Multiset NodeId
  | .object c => c.ids
  | .function f => f.ids
  | .var v => v.ids
  | .enum e => e.ids
  | .foreign f => f.ids

def ClassDecl.ids : ClassDecl → Multiset NodeId
  | ⟨node, name, base, members⟩ =>
    {name.id} + {node.id} + (TypeExpr.ids? base + Decl.idsAll members)

def Decl.idsAll : List Decl → Multiset NodeId
  | [] => 0
  | d :: rest => d.ids + Decl.idsAll rest

end

/-- The numbers of all nodes of a program, its own included. -/
def Program.ids (p : Program) : Multiset NodeId :=
  {p.id} + (Decl.idsAll p.declarations + Stmt.idsAll p.statements)

/-- A function on lists that adds up from the front. -/
lemma eq_sum_of_cons {α : Type} {f : α → Multiset NodeId} {g : List α → Multiset NodeId}
    (hnil : g [] = 0) (hcons : ∀ a rest, g (a :: rest) = f a + g rest) (l : List α) :
    g l = (l.map f).sum := by
  induction l with
  | nil => exact hnil
  | cons a rest ih => rw [hcons, ih, List.map_cons, List.sum_cons]

lemma TypeExpr.idsAll_eq : ∀ ts, idsAll ts = (ts.map ids).sum :=
  eq_sum_of_cons rfl fun _ _ => rfl

lemma FieldType.idsAll_eq : ∀ fs, idsAll fs = (fs.map ids).sum :=
  eq_sum_of_cons rfl fun _ _ => rfl

lemma EnumItem.idsAll_eq : ∀ is, idsAll is = (is.map ids).sum :=
  eq_sum_of_cons rfl fun _ _ => rfl

lemma Expr.idsAll_eq : ∀ es, idsAll es = (es.map ids).sum :=
  eq_sum_of_cons rfl fun _ _ => rfl

lemma FieldValue.idsAll_eq : ∀ fs, idsAll fs = (fs.map ids).sum :=
  eq_sum_of_cons rfl fun _ _ => rfl

lemma Stmt.idsAll_eq : ∀ ss, idsAll ss = (ss.map ids).sum :=
  eq_sum_of_cons rfl fun _ _ => rfl

lemma Decl.idsAll_eq : ∀ ds, idsAll ds = (ds.map ids).sum :=
  eq_sum_of_cons rfl fun _ _ => rfl

/-- The next numbers. -/
lemma range'_append_next {n : Nat} (h : 1 ≤ n) (k : Nat) :
    (List.range' 1 (n - 1) : Multiset Nat) + List.range' n k = List.range' 1 (n + k - 1) := by
  have happend := List.range'_append_1 (s := 1) (m := n - 1) (n := k)
  rw [Nat.add_sub_cancel' h, ← Nat.sub_add_comm h] at happend
  rw [Multiset.coe_add, happend]

/-! ### Handing out numbers -/

namespace Draft

section Steps

variable {α β : Type}

/-- The numbers in what `x` gives are the ones in `used` and those that it hands out. -/
def Numbers (ids : α → Multiset NodeId) (used : Multiset NodeId) (x : Draft α) : Prop :=
  ∀ c, ∃ k, (x.run c).2.nextId = c.nextId + k ∧
    ids (x.run c).1 = List.range' c.nextId k + used

variable {ids : α → Multiset NodeId} {ids' : β → Multiset NodeId} {used used' : Multiset NodeId}

lemma numbers_pure {a : α} (h : ids a = used) : Numbers ids used (pure a) :=
  fun _ => ⟨0, rfl, h.trans (zero_add used).symm⟩

/-- One step after the other: what the first one gives is used by the second. -/
lemma Numbers.bind {x : Draft α} {f : α → Draft β} (hx : Numbers ids used x)
    (hf : ∀ a, Numbers ids' (ids a + used') (f a)) : Numbers ids' (used + used') (x >>= f) := by
  intro c
  obtain ⟨k, hk, hids⟩ := hx c
  obtain ⟨k', hk', hids'⟩ := hf (x.run c).1 (x.run c).2
  refine ⟨k + k', ?_, hids'.trans ?_⟩
  · rw [← Nat.add_assoc, ← hk, ← hk']
    rfl
  · rw [← List.range'_append_1, ← Multiset.coe_add, hids, hk]
    abel

/-- A node of its own, and then the rest. -/
lemma Numbers.bind_new {x : Draft α} {f : α → Draft β} (hx : Numbers ids 0 x)
    (hf : ∀ a, Numbers ids' (ids a + used) (f a)) : Numbers ids' used (x >>= f) := by
  simpa using hx.bind hf

lemma numbers_node (width : Nat) : Numbers (fun n : Node => {n.id}) 0 (node width) :=
  fun _ => ⟨1, rfl, rfl⟩

lemma numbers_nodeAt (location : Location) :
    Numbers (fun n : Node => {n.id}) 0 (nodeAt location) :=
  fun _ => ⟨1, rfl, rfl⟩

lemma numbers_ident (name : String) : Numbers (fun n : Ident => {n.id}) 0 (ident name) :=
  fun _ => ⟨1, rfl, rfl⟩

lemma numbers_mapM {f : α → Draft β} {uses : α → Multiset NodeId}
    (h : ∀ a, Numbers ids' (uses a) (f a)) (l : List α) :
    Numbers (fun bs => (bs.map ids').sum) (l.map uses).sum (l.mapM f) := by
  induction l with
  | nil => exact numbers_pure rfl
  | cons a rest ih =>
    rw [List.mapM_cons, List.map_cons, List.sum_cons]
    refine (h a).bind fun b => ?_
    rw [add_comm]
    refine ih.bind fun bs => numbers_pure ?_
    rw [List.map_cons, List.sum_cons, add_comm]

lemma Numbers.map {x : Draft α} {f : α → β} (hx : Numbers ids used x)
    (hf : ∀ a, ids' (f a) = ids a) : Numbers ids' used (f <$> x) := by
  intro c
  obtain ⟨k, hk, hids⟩ := hx c
  exact ⟨k, hk, (hf _).trans hids⟩

end Steps

/-! ### What each call hands out

A name of its own and then the node itself, or the node alone, or the blocks of a statement
first. -/

section Builders

variable {α : Type} {ids : α → Multiset NodeId} {used : Multiset NodeId}

lemma numbers_named {f : Node → Ident → α} (h : ∀ n i, ids (f n i) = {i.id} + {n.id} + used)
    (name : String) :
    Numbers ids used (do let i ← ident name; return f (← nodeAt i.location) i) :=
  (numbers_ident name).bind_new fun i => (numbers_nodeAt i.location).bind_new fun n =>
    numbers_pure ((h n i).trans (by abel))

lemma numbers_plain {f : Node → α} (h : ∀ n, ids (f n) = {n.id} + used) (width : Nat) :
    Numbers ids used (do return f (← node width)) :=
  (numbers_node width).bind_new fun n => numbers_pure (h n)

lemma numbers_plainAt {f : Node → α} (h : ∀ n, ids (f n) = {n.id} + used) (location : Location) :
    Numbers ids used (do return f (← nodeAt location)) :=
  (numbers_nodeAt location).bind_new fun n => numbers_pure (h n)

end Builders

lemma numbers_namedType (name : String) (arguments : List TypeExpr) :
    Numbers TypeExpr.ids (TypeExpr.idsAll arguments) (namedType name arguments) :=
  numbers_named (fun _ _ => rfl) name

lemma numbers_functionType (parameters : List TypeExpr) (returns : Option TypeExpr) :
    Numbers TypeExpr.ids (TypeExpr.idsAll parameters + TypeExpr.ids? returns)
      (functionType parameters returns) :=
  numbers_plain (fun _ => by cases returns <;> rfl) 1

lemma numbers_fieldType (name : String) (type : TypeExpr) :
    Numbers FieldType.ids type.ids (fieldType name type) :=
  numbers_named (fun _ _ => rfl) name

lemma numbers_recordType (fields : List (String × TypeExpr)) :
    Numbers TypeExpr.ids (fields.map (·.2.ids)).sum (recordType fields) := by
  have hfields := numbers_mapM (fun f : String × TypeExpr => numbers_fieldType f.1 f.2) fields
  rw [← add_zero (List.sum _)]
  refine hfields.bind fun fs => numbers_plain (fun n => ?_) 1
  rw [TypeExpr.ids, FieldType.idsAll_eq, add_zero]

lemma numbers_enumItem (name : String) (payload : List TypeExpr) :
    Numbers EnumItem.ids (TypeExpr.idsAll payload) (enumItem name payload) :=
  numbers_named (fun _ _ => rfl) name

lemma numbers_inlineEnumType (items : List EnumItem) :
    Numbers TypeExpr.ids (EnumItem.idsAll items) (inlineEnumType items) :=
  numbers_plain (fun _ => rfl) _

lemma numbers_literal (value : Literal) : Numbers Expr.ids 0 (literal value) :=
  numbers_plain (fun _ => rfl) _

lemma numbers_identifier (name : String) : Numbers Expr.ids 0 (identifier name) :=
  (numbers_ident name).bind_new fun _ => numbers_pure rfl

lemma numbers_self : Numbers Expr.ids 0 self :=
  numbers_plain (fun _ => rfl) _

lemma numbers_super : Numbers Expr.ids 0 super :=
  numbers_plain (fun _ => rfl) _

lemma numbers_call (callee : Expr) (arguments : List Expr) :
    Numbers Expr.ids (callee.ids + Expr.idsAll arguments) (call callee arguments) :=
  numbers_plainAt (fun _ => rfl) _

lemma numbers_binary (op : BinaryOp) (left right : Expr) :
    Numbers Expr.ids (left.ids + right.ids) (binary op left right) :=
  numbers_plainAt (fun _ => rfl) _

lemma numbers_unary (op : UnaryOp) (operand : Expr) :
    Numbers Expr.ids operand.ids (unary op operand) :=
  numbers_plain (fun _ => rfl) 1

lemma numbers_member (object : Expr) (name : String) :
    Numbers Expr.ids object.ids (member object name) :=
  numbers_named (fun _ _ => rfl) name

lemma numbers_index (array position : Expr) :
    Numbers Expr.ids (array.ids + position.ids) (index array position) :=
  numbers_plainAt (fun _ => rfl) _

lemma numbers_assign (target value : Expr) :
    Numbers Expr.ids (target.ids + value.ids) (assign target value) :=
  numbers_plainAt (fun _ => rfl) _

lemma numbers_array (elements : List Expr) :
    Numbers Expr.ids (Expr.idsAll elements) (array elements) :=
  numbers_plain (fun _ => rfl) 1

lemma numbers_fieldValue (name : String) (value : Expr) :
    Numbers FieldValue.ids value.ids (fieldValue name value) :=
  numbers_named (fun _ _ => rfl) name

lemma numbers_record (fields : List (String × Expr)) :
    Numbers Expr.ids (fields.map (·.2.ids)).sum (record fields) := by
  have hfields := numbers_mapM (fun f : String × Expr => numbers_fieldValue f.1 f.2) fields
  rw [← add_zero (List.sum _)]
  refine hfields.bind fun fs => numbers_plain (fun n => ?_) 1
  rw [Expr.ids, FieldValue.idsAll_eq, add_zero]

lemma numbers_shorthand (item : String) : Numbers Expr.ids 0 (shorthand item) :=
  numbers_named (fun _ _ => rfl) item

lemma numbers_variableDecl (name : String) (type : Option TypeExpr) (value : Option Expr) :
    Numbers VariableDecl.ids (TypeExpr.ids? type + Expr.ids? value)
      (variableDecl name type value) :=
  numbers_named (fun _ _ => rfl) name

lemma numbers_variableStmt (name : String) (type : Option TypeExpr) (value : Option Expr) :
    Numbers Stmt.ids (TypeExpr.ids? type + Expr.ids? value) (variableStmt name type value) :=
  (numbers_variableDecl name type value).map fun _ => rfl

lemma numbers_block (statements : List Stmt) :
    Numbers Block.ids (Stmt.idsAll statements) (block statements) :=
  numbers_plain (fun _ => rfl) 1

lemma numbers_blockStmt (statements : List Stmt) :
    Numbers Stmt.ids (Stmt.idsAll statements) (blockStmt statements) :=
  (numbers_block statements).map fun _ => rfl

lemma numbers_expressionStmt (value : Expr) : Numbers Stmt.ids value.ids (expressionStmt value) :=
  numbers_plainAt (fun _ => rfl) _

lemma numbers_returnStmt (value : Option Expr) :
    Numbers Stmt.ids (Expr.ids? value) (returnStmt value) :=
  numbers_plain (fun _ => rfl) _

/-- The block of an alternative, where there is one. -/
lemma numbers_block? (no : Option (List Stmt)) :
    Numbers (fun b : Option Block => b.elim 0 Block.ids) (Stmt.idsAll (no.getD []))
      (no.mapM block) := by
  cases no with
  | none => exact numbers_pure rfl
  | some statements => exact (numbers_block statements).map fun _ => rfl

lemma numbers_ifStmt (condition : Expr) (yes : List Stmt) (no : Option (List Stmt)) :
    Numbers Stmt.ids (Stmt.idsAll yes + (Stmt.idsAll (no.getD []) + condition.ids))
      (ifStmt condition yes no) := by
  refine (numbers_block yes).bind fun y => ?_
  rw [add_left_comm]
  refine (numbers_block? no).bind fun n => numbers_plain (fun node => ?_) _
  cases n with
  | none => simp only [Stmt.ids, Option.elim_none]; abel
  | some n => simp only [Stmt.ids, Option.elim_some]; abel

lemma numbers_whileStmt (condition : Expr) (body : List Stmt) :
    Numbers Stmt.ids (Stmt.idsAll body + condition.ids) (whileStmt condition body) :=
  (numbers_block body).bind fun b =>
    numbers_plain (fun _ => by rw [Stmt.ids, add_comm b.ids]) _

lemma numbers_parameter (name : String) (type : TypeExpr) :
    Numbers Parameter.ids type.ids (parameter name type) :=
  numbers_named (fun _ _ => rfl) name

lemma numbers_classDecl (name : String) (base : Option TypeExpr) (members : List Decl) :
    Numbers ClassDecl.ids (TypeExpr.ids? base + Decl.idsAll members)
      (classDecl name base members) :=
  numbers_named (fun _ _ => rfl) name

lemma numbers_functionDecl (name : String) (parameters : List Parameter)
    (returns : Option TypeExpr) (body : List Stmt) :
    Numbers FunctionDecl.ids
      (Stmt.idsAll body + (Parameter.idsAll parameters + TypeExpr.ids? returns))
      (functionDecl name parameters returns body) := by
  refine (numbers_ident name).bind_new fun i => ?_
  rw [add_left_comm]
  refine (numbers_block body).bind fun b => numbers_plainAt (fun n => ?_) _
  simp only [FunctionDecl.ids]
  abel

lemma numbers_enumDecl (name : String) (items : List EnumItem) :
    Numbers EnumDecl.ids (EnumItem.idsAll items) (enumDecl name items) :=
  numbers_named (fun _ _ => rfl) name

lemma numbers_foreignDecl (name : String) (parameters : List Parameter)
    (returns : Option TypeExpr) :
    Numbers ForeignDecl.ids (Parameter.idsAll parameters + TypeExpr.ids? returns)
      (foreignDecl name parameters returns) :=
  numbers_named (fun _ _ => rfl) name

/-! ### Calls -/

/-- What a call gives and what calls take. -/
inductive Piece where
  | type (t : TypeExpr)
  | item (i : EnumItem)
  | expr (e : Expr)
  | var (v : VariableDecl)
  | stmt (s : Stmt)
  | block (b : Block)
  | parameter (q : Parameter)
  | decl (d : Decl)

def Piece.ids : Piece → Multiset NodeId
  | type t => t.ids
  | item i => i.ids
  | expr e => e.ids
  | var v => v.ids
  | stmt s => s.ids
  | block b => b.ids
  | parameter q => q.ids
  | decl d => d.ids

/-- A call, with the pieces that it takes. A variable and a block become statements or declarations
without a call. -/
inductive Call : List Piece → Draft Piece → Prop
  | namedType (name : String) (arguments : List TypeExpr) :
    Call (arguments.map .type) (.type <$> namedType name arguments)
  | arrayType (element : TypeExpr) : Call [.type element] (.type <$> arrayType element)
  | optionalType (inner : TypeExpr) : Call [.type inner] (.type <$> optionalType inner)
  | functionType (parameters : List TypeExpr) (returns : Option TypeExpr) :
    Call ((parameters ++ returns.toList).map .type) (.type <$> functionType parameters returns)
  | recordType (fields : List (String × TypeExpr)) :
    Call (fields.map fun f => .type f.2) (.type <$> recordType fields)
  | enumItem (name : String) (payload : List TypeExpr) :
    Call (payload.map .type) (.item <$> enumItem name payload)
  | inlineEnumType (items : List EnumItem) : Call (items.map .item) (.type <$> inlineEnumType items)
  | literal (value : Literal) : Call [] (.expr <$> literal value)
  | identifier (name : String) : Call [] (.expr <$> identifier name)
  | self : Call [] (.expr <$> self)
  | super : Call [] (.expr <$> super)
  | call (callee : Expr) (arguments : List Expr) :
    Call ((callee :: arguments).map .expr) (.expr <$> call callee arguments)
  | binary (op : BinaryOp) (left right : Expr) :
    Call [.expr left, .expr right] (.expr <$> binary op left right)
  | unary (op : UnaryOp) (operand : Expr) : Call [.expr operand] (.expr <$> unary op operand)
  | member (object : Expr) (name : String) : Call [.expr object] (.expr <$> member object name)
  | index (array position : Expr) :
    Call [.expr array, .expr position] (.expr <$> index array position)
  | assign (target value : Expr) :
    Call [.expr target, .expr value] (.expr <$> assign target value)
  | array (elements : List Expr) : Call (elements.map .expr) (.expr <$> array elements)
  | record (fields : List (String × Expr)) :
    Call (fields.map fun f => .expr f.2) (.expr <$> record fields)
  | shorthand (item : String) : Call [] (.expr <$> shorthand item)
  | variableDecl (name : String) (type : Option TypeExpr) (value : Option Expr) :
    Call (type.toList.map .type ++ value.toList.map .expr)
      (.var <$> variableDecl name type value)
  | variableStmt (name : String) (type : Option TypeExpr) (value : Option Expr) :
    Call (type.toList.map .type ++ value.toList.map .expr) (.stmt <$> variableStmt name type value)
  | ofVariable (v : VariableDecl) : Call [.var v] (pure (.stmt (.var v)))
  | block (statements : List Stmt) : Call (statements.map .stmt) (.block <$> block statements)
  | blockStmt (statements : List Stmt) :
    Call (statements.map .stmt) (.stmt <$> blockStmt statements)
  | ofBlock (b : Block) : Call [.block b] (pure (.stmt (.block b)))
  | expressionStmt (value : Expr) : Call [.expr value] (.stmt <$> expressionStmt value)
  | returnStmt (value : Option Expr) :
    Call (value.toList.map .expr) (.stmt <$> returnStmt value)
  | ifStmt (condition : Expr) (yes : List Stmt) (no : Option (List Stmt)) :
    Call (.expr condition :: (yes ++ no.getD []).map .stmt) (.stmt <$> ifStmt condition yes no)
  | whileStmt (condition : Expr) (body : List Stmt) :
    Call (.expr condition :: body.map .stmt) (.stmt <$> whileStmt condition body)
  | parameter (name : String) (type : TypeExpr) :
    Call [.type type] (.parameter <$> parameter name type)
  | variableMember (v : VariableDecl) : Call [.var v] (pure (.decl (.var v)))
  | classDecl (name : String) (base : Option TypeExpr) (members : List Decl) :
    Call (base.toList.map .type ++ members.map .decl)
      ((.decl ∘ .object) <$> classDecl name base members)
  | functionDecl (name : String) (parameters : List Parameter) (returns : Option TypeExpr)
      (body : List Stmt) :
    Call (parameters.map .parameter ++ (returns.toList.map .type ++ body.map .stmt))
      ((.decl ∘ .function) <$> functionDecl name parameters returns body)
  | enumDecl (name : String) (items : List EnumItem) :
    Call (items.map .item) ((.decl ∘ .enum) <$> enumDecl name items)
  | foreignDecl (name : String) (parameters : List Parameter) (returns : Option TypeExpr) :
    Call (parameters.map .parameter ++ returns.toList.map .type)
      ((.decl ∘ .foreign) <$> foreignDecl name parameters returns)

section Used

/-- The numbers in pieces. -/
def Piece.idsAll (ps : List Piece) : Multiset NodeId :=
  (ps.map Piece.ids).sum

namespace Piece

@[simp] lemma idsAll_nil : idsAll [] = 0 := rfl

@[simp] lemma idsAll_cons (q : Piece) (ps : List Piece) : idsAll (q :: ps) = q.ids + idsAll ps :=
  List.sum_cons

@[simp] lemma idsAll_append (ps qs : List Piece) : idsAll (ps ++ qs) = idsAll ps + idsAll qs := by
  simp [idsAll]

/-- Pieces of one kind. -/
lemma idsAll_map {α : Type} {f : α → Piece} {g : α → Multiset NodeId} (h : ∀ a, (f a).ids = g a)
    (l : List α) : idsAll (l.map f) = (l.map g).sum := by
  rw [idsAll, List.map_map]
  exact congrArg List.sum (List.map_congr_left fun a _ => h a)

@[simp] lemma idsAll_types (ts : List TypeExpr) : idsAll (ts.map .type) = TypeExpr.idsAll ts :=
  (idsAll_map (fun _ => rfl) ts).trans (TypeExpr.idsAll_eq ts).symm

@[simp] lemma idsAll_items (is : List EnumItem) : idsAll (is.map .item) = EnumItem.idsAll is :=
  (idsAll_map (fun _ => rfl) is).trans (EnumItem.idsAll_eq is).symm

@[simp] lemma idsAll_exprs (es : List Expr) : idsAll (es.map .expr) = Expr.idsAll es :=
  (idsAll_map (fun _ => rfl) es).trans (Expr.idsAll_eq es).symm

@[simp] lemma idsAll_stmts (ss : List Stmt) : idsAll (ss.map .stmt) = Stmt.idsAll ss :=
  (idsAll_map (fun _ => rfl) ss).trans (Stmt.idsAll_eq ss).symm

@[simp] lemma idsAll_parameters (qs : List Parameter) :
    idsAll (qs.map .parameter) = Parameter.idsAll qs :=
  idsAll_map (fun _ => rfl) qs

@[simp] lemma idsAll_decls (ds : List Decl) : idsAll (ds.map .decl) = Decl.idsAll ds :=
  (idsAll_map (fun _ => rfl) ds).trans (Decl.idsAll_eq ds).symm

@[simp] lemma idsAll_type? (type : Option TypeExpr) :
    TypeExpr.idsAll type.toList = TypeExpr.ids? type := by
  cases type <;> simp [TypeExpr.idsAll, TypeExpr.ids?]

@[simp] lemma idsAll_expr? (e : Option Expr) : Expr.idsAll e.toList = Expr.ids? e := by
  cases e <;> simp [Expr.idsAll, Expr.ids?]

end Piece

end Used

/-- A piece that is made by a call. -/
lemma Numbers.piece {α : Type} {ids : α → Multiset NodeId} {used : Multiset NodeId} {x : Draft α}
    {f : α → Piece} {ps : List Piece} (hx : Numbers ids used x) (hf : ∀ a, (f a).ids = ids a)
    (hps : Piece.idsAll ps = used) : Numbers Piece.ids (Piece.idsAll ps) (f <$> x) :=
  hps ▸ hx.map hf

/-- **Every call** gives the numbers of the pieces that it takes and those that it hands out. -/
lemma Call.numbers {used : List Piece} {x : Draft Piece} (h : Call used x) :
    Numbers Piece.ids (Piece.idsAll used) x := by
  cases h with
  | namedType name arguments =>
    exact (numbers_namedType name arguments).piece (fun _ => rfl) (by simp)
  | arrayType element => exact (numbers_namedType "Array" [element]).piece (fun _ => rfl) rfl
  | optionalType inner => exact (numbers_namedType "Optional" [inner]).piece (fun _ => rfl) rfl
  | functionType parameters returns =>
    exact (numbers_functionType parameters returns).piece (fun _ => rfl) (by simp)
  | recordType fields =>
    exact (numbers_recordType fields).piece (fun _ => rfl) (Piece.idsAll_map (fun _ => rfl) fields)
  | enumItem name payload =>
    exact (numbers_enumItem name payload).piece (fun _ => rfl) (by simp)
  | inlineEnumType items => exact (numbers_inlineEnumType items).piece (fun _ => rfl) (by simp)
  | literal value => exact (numbers_literal value).piece (fun _ => rfl) rfl
  | identifier name => exact (numbers_identifier name).piece (fun _ => rfl) rfl
  | self => exact numbers_self.piece (fun _ => rfl) rfl
  | super => exact numbers_super.piece (fun _ => rfl) rfl
  | call callee arguments =>
    exact (numbers_call callee arguments).piece (fun _ => rfl) (Piece.idsAll_exprs _)
  | binary op left right =>
    exact (numbers_binary op left right).piece (fun _ => rfl) (by simp [Piece.ids])
  | unary op operand => exact (numbers_unary op operand).piece (fun _ => rfl) (add_zero _)
  | member object name => exact (numbers_member object name).piece (fun _ => rfl) (add_zero _)
  | index array position =>
    exact (numbers_index array position).piece (fun _ => rfl) (by simp [Piece.ids])
  | assign target value =>
    exact (numbers_assign target value).piece (fun _ => rfl) (by simp [Piece.ids])
  | array elements => exact (numbers_array elements).piece (fun _ => rfl) (by simp)
  | record fields =>
    exact (numbers_record fields).piece (fun _ => rfl) (Piece.idsAll_map (fun _ => rfl) fields)
  | shorthand item => exact (numbers_shorthand item).piece (fun _ => rfl) rfl
  | variableDecl name type value =>
    exact (numbers_variableDecl name type value).piece (fun _ => rfl) (by simp)
  | variableStmt name type value =>
    exact (numbers_variableStmt name type value).piece (fun _ => rfl) (by simp)
  | ofVariable v | variableMember v | ofBlock v => exact numbers_pure (add_zero _).symm
  | block statements => exact (numbers_block statements).piece (fun _ => rfl) (by simp)
  | blockStmt statements => exact (numbers_blockStmt statements).piece (fun _ => rfl) (by simp)
  | expressionStmt value =>
    exact (numbers_expressionStmt value).piece (fun _ => rfl) (add_zero _)
  | returnStmt value => exact (numbers_returnStmt value).piece (fun _ => rfl) (by simp)
  | ifStmt condition yes no =>
    refine (numbers_ifStmt condition yes no).piece (fun _ => rfl) ?_
    simp only [Piece.idsAll_cons, Piece.ids, List.map_append, Piece.idsAll_append,
      Piece.idsAll_stmts]
    abel
  | whileStmt condition body =>
    refine (numbers_whileStmt condition body).piece (fun _ => rfl) ?_
    rw [Piece.idsAll_cons, Piece.idsAll_stmts, add_comm]
    rfl
  | parameter name type =>
    exact (numbers_parameter name type).piece (fun _ => rfl) (add_zero _)
  | classDecl name base members =>
    exact (numbers_classDecl name base members).piece (fun _ => rfl) (by simp)
  | functionDecl name parameters returns body =>
    refine (numbers_functionDecl name parameters returns body).piece (fun _ => rfl) ?_
    simp only [Piece.idsAll_append, Piece.idsAll_parameters, Piece.idsAll_types,
      Piece.idsAll_stmts, Piece.idsAll_type?]
    abel
  | enumDecl name items => exact (numbers_enumDecl name items).piece (fun _ => rfl) (by simp)
  | foreignDecl name parameters returns =>
    exact (numbers_foreignDecl name parameters returns).piece (fun _ => rfl) (by simp)

/-- What is at hand after some calls: the pieces that were made and are not part of another one,
in any order. -/
inductive Assembled : Cursor → List Piece → Prop
  | start (file : String) : Assembled { file } []
  | move {c : Cursor} {ps : List Piece} (line column : Nat) (h : Assembled c ps) :
    Assembled ((moveTo line column).run c).2 ps
  | call {c : Cursor} {used rest : List Piece} {x : Draft Piece} (hx : Call used x)
    (h : Assembled c (used ++ rest)) : Assembled (x.run c).2 ((x.run c).1 :: rest)
  | perm {c : Cursor} {ps ps' : List Piece} (hps : ps.Perm ps') (h : Assembled c ps) :
    Assembled c ps'

/-- **The numbers of the pieces at hand** are those handed out so far. -/
lemma Assembled.ids_eq {c : Cursor} {ps : List Piece} (h : Assembled c ps) :
    1 ≤ c.nextId ∧ Piece.idsAll ps = List.range' 1 (c.nextId - 1) := by
  induction h with
  | start file => exact ⟨le_rfl, rfl⟩
  | move line column _ ih => exact ih
  | @call c used rest x hx _ ih =>
    obtain ⟨hpos, hids⟩ := ih
    obtain ⟨k, hk, hnew⟩ := hx.numbers c
    refine ⟨hk ▸ Nat.le_add_right_of_le hpos, ?_⟩
    rw [hk, Piece.idsAll_cons, hnew, ← range'_append_next hpos, ← hids, Piece.idsAll_append]
    abel
  | perm hps _ ih =>
    refine ⟨ih.1, ?_⟩
    rw [← ih.2]
    exact ((hps.map Piece.ids).sum_eq).symm

end Draft

/-! ### Programs -/

namespace Program

variable {p : Program}

/-- The program is the last thing that was made, and everything else that was made is in it. -/
def Assembled (p : Program) : Prop :=
  ∃ c declarations statements,
    Draft.Assembled c (declarations.map .decl ++ statements.map .stmt) ∧
    p = ((Draft.program declarations statements).run c).1

/-- The nodes are numbered from 1 on, each of them once, and the next number is free. -/
def Counted (p : Program) : Prop :=
  1 ≤ p.nextId ∧ p.ids = List.range' 1 (p.nextId - 1)

lemma Assembled.counted (h : p.Assembled) : p.Counted := by
  obtain ⟨c, declarations, statements, hpieces, rfl⟩ := h
  obtain ⟨hpos, hids⟩ := hpieces.ids_eq
  rw [Draft.Piece.idsAll_append, Draft.Piece.idsAll_decls, Draft.Piece.idsAll_stmts] at hids
  refine ⟨Nat.le_add_left 1 _, ?_⟩
  change {c.nextId} + (Decl.idsAll declarations + Stmt.idsAll statements) =
    (List.range' 1 (c.nextId + 1 - 1) : Multiset NodeId)
  rw [hids, ← range'_append_next hpos, add_comm]
  rfl

end Program

lemma Decl.idsAll_append (ds es : List Decl) :
    idsAll (ds ++ es) = idsAll ds + idsAll es := by
  simp only [idsAll_eq, List.map_append, List.sum_append]

lemma Decl.idsAll_perm {ds ds' : List Decl} (h : ds.Perm ds') : idsAll ds = idsAll ds' := by
  rw [idsAll_eq, idsAll_eq, (h.map ids).sum_eq]

mutual

lemma Decl.ids_hoist : ∀ d : Decl, d.hoist.ids = d.ids
  | .object c => ClassDecl.ids_hoist c
  | .function _ | .var _ | .enum _ | .foreign _ => rfl

lemma ClassDecl.ids_hoist : ∀ c : ClassDecl, c.hoist.ids = c.ids
  | ⟨_, _, _, members⟩ => by
    simp only [ClassDecl.hoist, ClassDecl.ids]
    rw [Decl.idsAll_perm (variablesFirst_perm _), Decl.idsAll_hoistAll members]

lemma Decl.idsAll_hoistAll : ∀ ds : List Decl, Decl.idsAll (hoistAll ds) = Decl.idsAll ds
  | [] => rfl
  | d :: rest => by
    rw [hoistAll, Decl.idsAll, Decl.idsAll, Decl.ids_hoist d, Decl.idsAll_hoistAll rest]

end

namespace Program

variable {p p' : Program}

lemma Counted.hoist (h : p.Counted) : p.hoist.Counted := by
  refine ⟨h.1, Eq.trans ?_ h.2⟩
  simp only [ids, Program.hoist]
  rw [Decl.idsAll_perm (variablesFirst_perm _), Decl.idsAll_hoistAll]

/-- An entry point takes the next three numbers, for its body, its name and itself. -/
lemma Counted.withEntryPoint (h : p.Counted) (harranged : p.withEntryPoint = .ok p') :
    p'.Counted := by
  rcases withEntryPoint_cases harranged with ⟨rfl, -⟩ | rfl
  · exact h
  · refine ⟨Nat.le_add_right_of_le h.1, ?_⟩
    have hmain : (Decl.function p.entryPoint).ids =
        {p.nextId + 1} + {p.nextId + 2} + (0 + (0 + ({p.nextId} + Stmt.idsAll p.statements))) := rfl
    have hnew : (List.range' p.nextId 3 : Multiset NodeId) =
        {p.nextId} + {p.nextId + 1} + {p.nextId + 2} := rfl
    rw [← range'_append_next h.1, ← h.2, hnew]
    simp only [ids, Decl.idsAll_append, Decl.idsAll, Stmt.idsAll, hmain]
    abel

/-- One rearrangement. -/
lemma Counted.run {q : Pass} (hq : q = .hoist ∨ q = .entryPoint) {a b : Analysis}
    (h : a.program.Counted) (hrun : Runs q.run a () b) : b.program.Counted := by
  rcases hq with rfl | rfl
  · rw [Pass.run, runs_modify] at hrun
    exact hrun ▸ h.hoist
  · simp only [Pass.run, runs_bind, runs_get, runs_set, Pass.runs_liftExcept] at hrun
    obtain ⟨_, _, ⟨rfl, rfl⟩, p', _, ⟨hp', rfl⟩, rfl⟩ := hrun
    exact h.withEntryPoint hp'

lemma Counted.runAll {passes : List Pass} (hpasses : ∀ q ∈ passes, q = .hoist ∨ q = .entryPoint)
    {a b : Analysis} (h : a.program.Counted) (hrun : Runs (Pass.runAll passes) a () b) :
    b.program.Counted := by
  induction passes generalizing a with
  | nil =>
    rw [Pass.runAll, runs_pure] at hrun
    exact hrun.2 ▸ h
  | cons q rest ih =>
    rw [Pass.runAll, runs_bind] at hrun
    obtain ⟨_, a1, hq, hrest⟩ := hrun
    exact ih (fun q' hq' => hpasses q' (List.mem_cons_of_mem q hq'))
      (h.run (hpasses q List.mem_cons_self) hq) hrest

/-- **Node numbers are a bijection.** A program that is assembled from pieces, each of them used
once, has the numbers from 1 to the last one that was handed out, every number at one node. So it is
after any sequence of rearrangements that ends well, with the next number then. -/
theorem Assembled.ids_eq_range (hp : p.Assembled) :
    p.ids = List.range' 1 (p.nextId - 1) ∧
    ∀ (passes : List Pass) (context : Context) (b : Analysis),
      (∀ q ∈ passes, q = .hoist ∨ q = .entryPoint) →
      Runs (Pass.runAll passes) { program := p, context } () b →
      b.program.ids = List.range' 1 (b.program.nextId - 1) :=
  ⟨hp.counted.2, fun _ _ _ hpasses hrun => (hp.counted.runAll hpasses hrun).2⟩

/-- A function with a parameter, a variable and a loose statement. -/
def smallDraft : Program :=
  (StateT.run (m := Id) (do
    let a ← Draft.parameter "a" (← Draft.namedType "Int" [])
    let r ← Draft.returnStmt (some (← Draft.identifier "a"))
    let f ← Draft.functionDecl "f" [a] none [r]
    let x ← Draft.variableDecl "x" none (some (← Draft.literal (.integer "1")))
    let s ← Draft.expressionStmt (← Draft.identifier "x")
    Draft.program [.function f, .var x] [s]) {}).1

lemma assembled_smallDraft : smallDraft.Assembled := by
  have h : Draft.Assembled _ _ := .call (.namedType "Int" []) (.start "")
  replace h : Draft.Assembled _ _ := .call (.parameter "a" _) h
  replace h : Draft.Assembled _ _ := .call (.identifier "a") h
  replace h : Draft.Assembled _ _ := .call (.returnStmt (some _)) h
  replace h : Draft.Assembled _ _ := .call (.functionDecl "f" [_] none [_]) (.perm (.swap _ _ _) h)
  replace h : Draft.Assembled _ _ := .call (.literal (.integer "1")) h
  replace h : Draft.Assembled _ _ := .call (.variableDecl "x" none (some _)) h
  replace h : Draft.Assembled _ _ := .call (.variableMember _) h
  replace h : Draft.Assembled _ _ := .call (.identifier "x") h
  replace h : Draft.Assembled _ _ := .call (.expressionStmt _) h
  exact ⟨_, [_, _], [_], h.perm (List.reverse_perm _).symm, rfl⟩

theorem Assembled.ids_eq_range_smallDraft :
    smallDraft.Assembled ∧ smallDraft.ids = List.range' 1 15 ∧
    ∃ b, Runs (Pass.runAll [.hoist, .entryPoint]) { program := smallDraft } () b ∧
      b.program.ids = List.range' 1 18 := by
  obtain ⟨hids, hpasses⟩ := Assembled.ids_eq_range assembled_smallDraft
  have hrun := runs_of_toOption (x := Pass.runAll [.hoist, .entryPoint])
    (s := { program := smallDraft }) (a := ()) (by decide +kernel)
  refine ⟨assembled_smallDraft, hids, _, hrun, ?_⟩
  rw [hpasses _ _ _ (by simp) hrun]
  decide +kernel

end Program

end Sema
