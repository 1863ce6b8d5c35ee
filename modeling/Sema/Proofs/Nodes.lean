import Mathlib.Data.List.Basic
import Mathlib.Data.List.Perm.Basic
import Mathlib.Tactic.Common
import Sema.Syntax.Arrange

/-!
The nodes of a tree that stand for something with a type: declarations, variables, parameters,
enum items, blocks, statements, expressions and annotations. The first walk over a program types
the nodes of its signatures, the second one those of initial values and of function bodies.
Rearranging a program changes the order of its nodes, and adds those of an entry point.
-/

namespace Sema

/-! ### Annotations and expressions -/

mutual

def TypeExpr.nodes : TypeExpr → List NodeId
  | .named node _ arguments => node.id :: TypeExpr.nodesAll arguments
  | .function node parameters returns =>
    node.id :: (TypeExpr.nodesAll parameters ++ match returns with
      | some type => type.nodes
      | none => [])
  | .record node fields => node.id :: FieldType.nodesAll fields
  | .inlineEnum node items => node.id :: EnumItem.nodesAll items

def TypeExpr.nodesAll : List TypeExpr → List NodeId
  | [] => []
  | type :: rest => type.nodes ++ TypeExpr.nodesAll rest

def FieldType.nodesAll : List FieldType → List NodeId
  | [] => []
  | ⟨_, _, type⟩ :: rest => type.nodes ++ FieldType.nodesAll rest

def EnumItem.nodes : EnumItem → List NodeId
  | ⟨node, _, payload⟩ => node.id :: TypeExpr.nodesAll payload

def EnumItem.nodesAll : List EnumItem → List NodeId
  | [] => []
  | item :: rest => item.nodes ++ EnumItem.nodesAll rest

end

mutual

def Expr.nodes : Expr → List NodeId
  | .literal node _ | .self node | .super node | .shorthand node _ => [node.id]
  | .identifier name => [name.id]
  | .call node callee arguments => node.id :: (callee.nodes ++ Expr.nodesAll arguments)
  | .binary node _ left right => node.id :: (left.nodes ++ right.nodes)
  | .unary node _ operand => node.id :: operand.nodes
  | .member node object _ => node.id :: object.nodes
  | .index node array position => node.id :: (array.nodes ++ position.nodes)
  | .assign node target value => node.id :: (target.nodes ++ value.nodes)
  | .array node elements => node.id :: Expr.nodesAll elements
  | .record node fields => node.id :: FieldValue.nodesAll fields

def Expr.nodesAll : List Expr → List NodeId
  | [] => []
  | e :: rest => e.nodes ++ Expr.nodesAll rest

def FieldValue.nodesAll : List FieldValue → List NodeId
  | [] => []
  | ⟨_, _, value⟩ :: rest => value.nodes ++ FieldValue.nodesAll rest

end

lemma TypeExpr.node_mem_nodes (type : TypeExpr) : type.node.id ∈ type.nodes := by
  rcases type with _ | ⟨_, _, _ | _⟩ | _ | _ <;> simp [TypeExpr.node, TypeExpr.nodes]

lemma EnumItem.id_mem_nodesAll {item : EnumItem} :
    ∀ {items : List EnumItem}, item ∈ items → item.id ∈ EnumItem.nodesAll items
  | ⟨_, _, _⟩ :: _, h => by
    rcases List.mem_cons.mp h with rfl | h
    · simp [EnumItem.nodesAll, EnumItem.nodes]
    · simp [EnumItem.nodesAll, EnumItem.id_mem_nodesAll h]

def TypeExpr.nodes? (type : Option TypeExpr) : List NodeId :=
  type.elim [] TypeExpr.nodes

def Expr.nodes? (e : Option Expr) : List NodeId :=
  e.elim [] Expr.nodes

/-! ### Statements -/

def VariableDecl.nodes (v : VariableDecl) : List NodeId :=
  v.id :: (TypeExpr.nodes? v.type ++ Expr.nodes? v.value)

mutual

/-- A variable statement and a block statement share the node of what they hold. -/
def Stmt.nodes : Stmt → List NodeId
  | .expression node value => node.id :: value.nodes
  | .var v => v.nodes
  | .ret node value => node.id :: Expr.nodes? value
  | .branch node test yes no =>
    node.id :: (test.nodes ++ (yes.nodes ++ match no with
      | some other => other.nodes
      | none => []))
  | .loop node test body => node.id :: (test.nodes ++ body.nodes)
  | .block b => b.nodes

def Stmt.nodesAll : List Stmt → List NodeId
  | [] => []
  | s :: rest => s.nodes ++ Stmt.nodesAll rest

def Block.nodes : Block → List NodeId
  | ⟨node, statements⟩ => node.id :: Stmt.nodesAll statements

end

/-! ### Declarations -/

def Parameter.nodes (p : Parameter) : List NodeId :=
  p.id :: p.type.nodes

mutual

/-- A declaration with all declarations inside it. -/
def Decl.all : Decl → List Decl
  | .object c => .object c :: c.all
  | .function f => [.function f]
  | .var v => [.var v]
  | .enum e => [.enum e]
  | .foreign f => [.foreign f]

def ClassDecl.all : ClassDecl → List Decl
  | ⟨_, _, _, members⟩ => Decl.allOf members

def Decl.allOf : List Decl → List Decl
  | [] => []
  | d :: rest => d.all ++ Decl.allOf rest

end

namespace Decl

/-- The node of a declaration and the nodes of its signature, without those of its members. -/
def signature : Decl → List NodeId
  | .object c => c.id :: TypeExpr.nodes? c.base
  | .function f => f.id :: (f.parameters.flatMap Parameter.nodes ++ TypeExpr.nodes? f.returns)
  | .var v => v.id :: TypeExpr.nodes? v.type
  | .enum e => e.id :: EnumItem.nodesAll e.items
  | .foreign f => f.id :: (f.parameters.flatMap Parameter.nodes ++ TypeExpr.nodes? f.returns)

lemma node_mem_signature (d : Decl) : d.node.id ∈ d.signature := by
  cases d <;> simp [node, signature]

lemma mem_all (d : Decl) : d ∈ d.all := by
  cases d <;> simp [all]

/-- The nodes of an initial value or of a body, without those of members. -/
def inside : Decl → List NodeId
  | .var v => Expr.nodes? v.value
  | .function f => f.body.nodes
  | .object _ | .enum _ | .foreign _ => []

/-- The name of a class or an enum. -/
def typeName? : Decl → Option String
  | .object c => some c.name.name
  | .enum e => some e.name.name
  | .function _ | .var _ | .foreign _ => none

end Decl

namespace Program

/-- All declarations of a program, at any depth. -/
def allDecls (p : Program) : List Decl :=
  Decl.allOf p.declarations

def nodes (p : Program) : List NodeId :=
  p.allDecls.flatMap Decl.signature ++ p.allDecls.flatMap Decl.inside ++ Stmt.nodesAll p.statements

/-- Nodes are numbered apart from each other, and numbers from `nextId` on are free. -/
structure Numbered (p : Program) : Prop where
  nodup : p.nodes.Nodup
  lt_nextId : ∀ n ∈ p.nodes, n < p.nextId

/-- No two classes or enums have the same name, wherever they are declared. -/
def DistinctTypeNames (p : Program) : Prop :=
  (p.allDecls.filterMap Decl.typeName?).Nodup

end Program

/-! ### Lists -/

/-- What goes through a list element by element collects what belongs to its elements. -/
lemma mem_collected {α β : Type} {all : List α → List β} {one : α → List β} (hnil : all [] = [])
    (hcons : ∀ a rest, all (a :: rest) = one a ++ all rest) {b : β} {l : List α} :
    b ∈ all l ↔ ∃ a ∈ l, b ∈ one a := by
  induction l with
  | nil => simp [hnil]
  | cons a rest ih => simp [hcons, ih]

section

variable {n : NodeId}

lemma TypeExpr.mem_nodesAll {ts : List TypeExpr} :
    n ∈ TypeExpr.nodesAll ts ↔ ∃ t ∈ ts, n ∈ t.nodes :=
  mem_collected rfl fun _ _ => rfl

lemma FieldType.mem_nodesAll {fs : List FieldType} :
    n ∈ FieldType.nodesAll fs ↔ ∃ f ∈ fs, n ∈ f.type.nodes :=
  mem_collected rfl fun ⟨_, _, _⟩ _ => rfl

lemma EnumItem.mem_nodesAll {is : List EnumItem} :
    n ∈ EnumItem.nodesAll is ↔ ∃ i ∈ is, n ∈ i.nodes :=
  mem_collected rfl fun _ _ => rfl

lemma Expr.mem_nodesAll {es : List Expr} : n ∈ Expr.nodesAll es ↔ ∃ e ∈ es, n ∈ e.nodes :=
  mem_collected rfl fun _ _ => rfl

lemma FieldValue.mem_nodesAll {fs : List FieldValue} :
    n ∈ FieldValue.nodesAll fs ↔ ∃ f ∈ fs, n ∈ f.value.nodes :=
  mem_collected rfl fun ⟨_, _, _⟩ _ => rfl

lemma Stmt.mem_nodesAll {ss : List Stmt} : n ∈ Stmt.nodesAll ss ↔ ∃ s ∈ ss, n ∈ s.nodes :=
  mem_collected rfl fun _ _ => rfl

lemma Decl.mem_allOf {d' : Decl} {ds : List Decl} : d' ∈ Decl.allOf ds ↔ ∃ d ∈ ds, d' ∈ d.all :=
  mem_collected rfl fun _ _ => rfl

end

/-! ### Rearranged programs -/

lemma allOf_append (ds es : List Decl) :
    Decl.allOf (ds ++ es) = Decl.allOf ds ++ Decl.allOf es := by
  induction ds with
  | nil => rfl
  | cons d ds ih => simp [Decl.allOf, ih]

lemma allOf_perm {ds es : List Decl} (h : ds.Perm es) : (Decl.allOf ds).Perm (Decl.allOf es) := by
  induction h with
  | nil => exact .refl _
  | cons d _ ih => exact .append_left _ ih
  | swap d e l =>
    simp only [Decl.allOf, ← List.append_assoc]
    exact .append_right _ List.perm_append_comm
  | trans _ _ ih1 ih2 => exact ih1.trans ih2

lemma variablesFirst_perm (ds : List Decl) : (variablesFirst ds).Perm ds := by
  unfold variablesFirst
  simpa using List.filter_append_perm Decl.isVariable ds

mutual

lemma all_hoist : ∀ d : Decl, (d.hoist.all).Perm (d.all.map Decl.hoist)
  | .object c => by
    simp only [Decl.hoist, Decl.all, List.map_cons]
    exact .cons _ (all_hoistClass c)
  | .function _ | .var _ | .enum _ | .foreign _ => .refl _

lemma all_hoistClass : ∀ c : ClassDecl, (c.hoist.all).Perm (c.all.map Decl.hoist)
  | ⟨_, _, _, members⟩ => by
    simp only [ClassDecl.hoist, ClassDecl.all]
    exact (allOf_perm (variablesFirst_perm _)).trans (allOf_hoistAll members)

lemma allOf_hoistAll : ∀ ds : List Decl,
    (Decl.allOf (hoistAll ds)).Perm ((Decl.allOf ds).map Decl.hoist)
  | [] => .refl _
  | d :: rest => by
    simp only [hoistAll, Decl.allOf, List.map_append]
    exact (all_hoist d).append (allOf_hoistAll rest)

end

/-- Moving variables changes the order of declarations, and no declaration but for the order of
its members. -/
lemma Program.allDecls_hoist (p : Program) : p.hoist.allDecls.Perm (p.allDecls.map Decl.hoist) :=
  (allOf_perm (variablesFirst_perm _)).trans (allOf_hoistAll p.declarations)

namespace Decl

@[simp] lemma signature_hoist (d : Decl) : d.hoist.signature = d.signature := by
  rcases d with ⟨⟨_, _, _, _⟩⟩ | _ | _ | _ | _ <;> rfl

@[simp] lemma inside_hoist (d : Decl) : d.hoist.inside = d.inside := by
  rcases d with ⟨⟨_, _, _, _⟩⟩ | _ | _ | _ | _ <;> rfl

@[simp] lemma typeName?_hoist (d : Decl) : d.hoist.typeName? = d.typeName? := by
  rcases d with ⟨⟨_, _, _, _⟩⟩ | _ | _ | _ | _ <;> rfl

end Decl

namespace Program

variable {p p' : Program}

lemma nodes_hoist (p : Program) : p.hoist.nodes.Perm p.nodes := by
  have hs : ∀ f : Decl → List NodeId, (∀ d, f d.hoist = f d) →
      (p.hoist.allDecls.flatMap f).Perm (p.allDecls.flatMap f) := by
    intro f hf
    have h := (allDecls_hoist p).flatMap_right f
    rw [List.flatMap_map] at h
    simpa only [hf] using h
  exact ((hs _ Decl.signature_hoist).append (hs _ Decl.inside_hoist)).append_right _

lemma Numbered.hoist (h : p.Numbered) : p.hoist.Numbered :=
  ⟨(nodes_hoist p).nodup_iff.mpr h.nodup, fun n hn => h.lt_nextId n ((nodes_hoist p).mem_iff.mp hn)⟩

lemma DistinctTypeNames.hoist (h : p.DistinctTypeNames) : p.hoist.DistinctTypeNames := by
  have hp := (allDecls_hoist p).filterMap Decl.typeName?
  rw [List.filterMap_map] at hp
  refine hp.nodup_iff.mpr ?_
  have hf : Decl.typeName? ∘ Decl.hoist = Decl.typeName? := funext Decl.typeName?_hoist
  rw [hf]
  exact h

/-- What an entry point adds: nothing, or a last function whose body and node are new. -/
lemma withEntryPoint_cases (h : p.withEntryPoint = .ok p') :
    p' = p ∧ p.statements = [] ∨
    p' = { p with
      declarations := p.declarations ++ [.function p.entryPoint]
      statements := []
      nextId := p.nextId + 3 } := by
  unfold withEntryPoint at h
  split at h
  · next hs =>
    cases h
    exact .inl ⟨rfl, hs⟩
  · cases h
  · cases h
    exact .inr rfl

lemma statements_withEntryPoint (h : p.withEntryPoint = .ok p') : p'.statements = [] := by
  rcases withEntryPoint_cases h with ⟨rfl, hs⟩ | rfl
  · exact hs
  · rfl

lemma allOf_entryPoint (p : Program) :
    Decl.allOf (p.declarations ++ [.function p.entryPoint]) =
      p.allDecls ++ [.function p.entryPoint] := by
  rw [allOf_append]
  rfl

lemma nodes_withEntryPoint (p : Program) : ({ p with
      declarations := p.declarations ++ [.function p.entryPoint]
      statements := []
      nextId := p.nextId + 3 } : Program).nodes.Perm ((p.nextId + 2) :: p.nextId :: p.nodes) := by
  have hsig : (Decl.function p.entryPoint).signature = [p.nextId + 2] := rfl
  have hin : (Decl.function p.entryPoint).inside = p.nextId :: Stmt.nodesAll p.statements := rfl
  simp only [nodes, allDecls, allOf_entryPoint, List.flatMap_append,
    List.flatMap_singleton, hsig, hin,
    Stmt.nodesAll, List.append_nil]
  rw [List.perm_iff_count]
  intro n
  simp only [List.count_append, List.count_cons, List.count_nil]
  omega

lemma Numbered.withEntryPoint (hp : p.Numbered) (h : p.withEntryPoint = .ok p') :
    p'.Numbered := by
  rcases withEntryPoint_cases h with ⟨rfl, _⟩ | rfl
  · exact hp
  · have hperm := nodes_withEntryPoint p
    refine ⟨hperm.nodup_iff.mpr (List.nodup_cons.mpr ⟨?_, List.nodup_cons.mpr ⟨?_, hp.nodup⟩⟩), ?_⟩
    · intro hn
      rcases List.mem_cons.mp hn with hn | hn
      · lia
      · have := hp.lt_nextId _ hn
        lia
    · intro hn
      have := hp.lt_nextId _ hn
      lia
    · intro n hn
      rcases List.mem_cons.mp (hperm.mem_iff.mp hn) with rfl | hn
      · exact Nat.lt_succ_self _
      · rcases List.mem_cons.mp hn with rfl | hn
        · exact Nat.lt_add_of_pos_right (by decide)
        · exact Nat.lt_add_right 3 (hp.lt_nextId n hn)

lemma DistinctTypeNames.withEntryPoint (hp : p.DistinctTypeNames)
    (h : p.withEntryPoint = .ok p') : p'.DistinctTypeNames := by
  rcases withEntryPoint_cases h with ⟨rfl, _⟩ | rfl
  · exact hp
  · unfold DistinctTypeNames allDecls
    rw [allOf_entryPoint, List.filterMap_append]
    have hep : List.filterMap Decl.typeName? [.function p.entryPoint] = [] := rfl
    rw [hep, List.append_nil]
    exact hp

end Program

end Sema
