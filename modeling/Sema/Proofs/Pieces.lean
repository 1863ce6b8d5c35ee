import Mathlib.Data.List.Basic
import Mathlib.Order.Nat
import Mathlib.Tactic.Common
import Sema.Syntax.Tour

/-!
Walks over a tree. The nodes of all families are taken together here, and it is said of each which
nodes stand right below it, in source order. A node of the tree is then found by a path: by which
child to go down at each step. In the order of their paths each node comes before those below it,
and these come child by child.

A visitor is a function of one layer: its hook gets the node and the walk over the nodes right
below. So, if every hook does something and then descends, it is done for all nodes in this order;
and if it fails at a node, nothing is done for the nodes after that.
-/

namespace Sema

/-! ### The nodes of a tree -/

/-- A node of a tree, of one of the families that a visitor has a hook for. -/
inductive Piece where
  | program (p : Program)
  | declaration (d : Decl)
  | object (c : ClassDecl)
  | function (f : FunctionDecl)
  | variableDecl (v : VariableDecl)
  | enum (e : EnumDecl)
  | enumItem (i : EnumItem)
  | foreign (f : ForeignDecl)
  | parameter (p : Parameter)
  | block (b : Block)
  | statement (s : Stmt)
  | expression (e : Expr)
  | typeExpr (t : TypeExpr)

namespace Piece

/-- What stands right below a node, in source order. -/
def children : Piece → List Piece
  | program p => p.declarations.map declaration ++ p.statements.map statement
  | declaration d =>
    match d with
    | .object c => [object c]
    | .function f => [function f]
    | .var v => [variableDecl v]
    | .enum e => [enum e]
    | .foreign f => [foreign f]
  | object c => c.base.toList.map typeExpr ++ c.members.map declaration
  | function f => f.parameters.map parameter ++ (f.returns.toList.map typeExpr ++ [block f.body])
  | variableDecl v => v.type.toList.map typeExpr ++ v.value.toList.map expression
  | enum e => e.items.map enumItem
  | enumItem i => i.payload.map typeExpr
  | foreign f => f.parameters.map parameter ++ f.returns.toList.map typeExpr
  | parameter p => [typeExpr p.type]
  | block b => b.statements.map statement
  | statement s =>
    match s with
    | .expression _ value => [expression value]
    | .var v => [variableDecl v]
    | .ret _ value => value.toList.map expression
    | .branch _ condition yes no => expression condition :: block yes :: no.toList.map block
    | .loop _ condition body => [expression condition, block body]
    | .block b => [block b]
  | expression e =>
    match e with
    | .literal .. | .identifier _ | .self _ | .super _ | .shorthand .. => []
    | .call _ callee arguments => expression callee :: arguments.map expression
    | .binary _ _ left right => [expression left, expression right]
    | .unary _ _ operand => [expression operand]
    | .member _ owner _ => [expression owner]
    | .index _ array position => [expression array, expression position]
    | .assign _ target value => [expression target, expression value]
    | .array _ elements => elements.map expression
    | .record _ fields => fields.map fun f => expression f.value
  | typeExpr t =>
    match t with
    | .named _ _ arguments => arguments.map typeExpr
    | .function _ parameters returns => parameters.map typeExpr ++ returns.toList.map typeExpr
    | .record _ fields => fields.map fun f => typeExpr f.type
    | .inlineEnum _ items => items.map enumItem

/-- All of the pieces are smaller than `n`. -/
def Below (n : Nat) (cs : List Piece) : Prop :=
  ∀ c ∈ cs, sizeOf c < n

namespace Below

variable {α : Type} [SizeOf α] {mk : α → Piece} {n : Nat} {c : Piece} {cs ds : List Piece}

lemma nil : Below n [] := by simp [Below]

lemma cons (h : sizeOf c < n) (hs : Below n cs) : Below n (c :: cs) :=
  List.forall_mem_cons.mpr ⟨h, hs⟩

lemma append (h : Below n cs) (h' : Below n ds) : Below n (cs ++ ds) :=
  List.forall_mem_append.mpr ⟨h, h'⟩

lemma map {l : List α} (hmk : ∀ a, sizeOf (mk a) ≤ 1 + sizeOf a) (hn : sizeOf l < n) :
    Below n (l.map mk) := by
  intro c hc
  obtain ⟨a, ha, rfl⟩ := List.mem_map.mp hc
  have hlist := List.sizeOf_lt_of_mem ha
  have hpiece := hmk a
  omega

lemma option {o : Option α} (hmk : ∀ a, sizeOf (mk a) ≤ 1 + sizeOf a) (hn : sizeOf o < n) :
    Below n (o.toList.map mk) := by
  cases o with
  | none => exact nil
  | some a => exact cons ((hmk a).trans_lt (by simpa using hn)) nil

end Below

/-- What stands below a node is smaller than the node. -/
lemma below_children (x : Piece) : Below (sizeOf x) x.children := by
  cases x with
  | program p =>
    obtain ⟨_, declarations, statements, _⟩ := p
    refine .append (.map (fun _ => le_rfl) ?_) (.map (fun _ => le_rfl) ?_) <;> simp +arith
  | declaration d => cases d <;> exact .cons (by simp) .nil
  | object c =>
    obtain ⟨_, _, base, members⟩ := c
    refine .append (.option (fun _ => le_rfl) ?_) (.map (fun _ => le_rfl) ?_) <;> simp +arith
  | function f =>
    obtain ⟨_, _, parameters, returns, body⟩ := f
    refine .append (.map (fun _ => le_rfl) ?_) (.append (.option (fun _ => le_rfl) ?_)
      (.cons ?_ .nil)) <;> simp +arith
  | variableDecl v =>
    obtain ⟨_, _, type, value⟩ := v
    refine .append (.option (fun _ => le_rfl) ?_) (.option (fun _ => le_rfl) ?_) <;> simp +arith
  | enum e =>
    obtain ⟨_, _, items⟩ := e
    exact .map (fun _ => le_rfl) (by simp +arith)
  | enumItem i =>
    obtain ⟨_, _, payload⟩ := i
    exact .map (fun _ => le_rfl) (by simp +arith)
  | foreign f =>
    obtain ⟨_, _, parameters, returns⟩ := f
    refine .append (.map (fun _ => le_rfl) ?_) (.option (fun _ => le_rfl) ?_) <;> simp +arith
  | parameter p =>
    obtain ⟨_, _, type⟩ := p
    exact .cons (by simp +arith) .nil
  | block b =>
    obtain ⟨_, statements⟩ := b
    exact .map (fun _ => le_rfl) (by simp +arith)
  | statement s =>
    cases s with
    | expression => exact .cons (by simp +arith) .nil
    | var | block => exact .cons (by simp) .nil
    | ret _ value => exact .option (fun _ => le_rfl) (by simp +arith)
    | branch _ condition yes no =>
      refine .cons ?_ (.cons ?_ (.option (fun _ => le_rfl) ?_)) <;> simp +arith
    | loop _ condition body => refine .cons ?_ (.cons ?_ .nil) <;> simp +arith
  | expression e =>
    cases e with
    | literal | identifier | self | super | shorthand => exact .nil
    | call _ callee arguments =>
      refine .cons ?_ (.map (fun _ => le_rfl) ?_) <;> simp +arith
    | binary | index | assign => refine .cons ?_ (.cons ?_ .nil) <;> simp +arith
    | unary | member => exact .cons (by simp +arith) .nil
    | array _ elements => exact .map (fun _ => le_rfl) (by simp +arith)
    | record _ fields =>
      refine .map (fun f => ?_) (by simp +arith)
      obtain ⟨_, _, value⟩ := f
      simp
  | typeExpr t =>
    cases t with
    | named _ _ arguments => exact .map (fun _ => le_rfl) (by simp +arith)
    | function _ parameters returns =>
      refine .append (.map (fun _ => le_rfl) ?_) (.option (fun _ => le_rfl) ?_) <;> simp +arith
    | record _ fields =>
      refine .map (fun f => ?_) (by simp +arith)
      obtain ⟨_, _, type⟩ := f
      simp
    | inlineEnum _ items => exact .map (fun _ => le_rfl) (by simp +arith)

/-! ### Walks and positions -/

/-- A node and all nodes below it, each before those below it, in source order. -/
def walk (x : Piece) : List Piece :=
  x :: (x.children.attach.map fun c => c.1.walk).flatten
termination_by sizeOf x
decreasing_by exact below_children x _ c.2

lemma walk_eq (x : Piece) : x.walk = x :: x.children.flatMap walk := by
  rw [walk, List.attach_map_val, List.flatMap_def]

/-- Where a walk comes to each node: by which child it goes down at each step. -/
def positions (x : Piece) : List (List Nat) :=
  [] :: (x.children.zipIdx.attach.map fun c => c.1.1.positions.map (c.1.2 :: ·)).flatten
termination_by sizeOf x
decreasing_by exact below_children x _ (List.fst_mem_of_mem_zipIdx c.2)

lemma positions_eq (x : Piece) : x.positions =
    [] :: x.children.zipIdx.flatMap fun c => c.1.positions.map (c.2 :: ·) := by
  rw [positions, List.flatMap_def,
    List.attach_map_val (f := fun c : Piece × Nat => c.1.positions.map (c.2 :: ·))]

/-- What is proved of a node from the nodes right below it holds of all nodes. -/
@[elab_as_elim]
lemma induction {motive : Piece → Prop} (h : ∀ x, (∀ c ∈ x.children, motive c) → motive x)
    (x : Piece) : motive x :=
  h x fun c _ => induction h c
termination_by sizeOf x
decreasing_by exact below_children x c ‹_›

/-- What stands at a position. -/
def at? : Piece → List Nat → Option Piece
  | x, [] => some x
  | x, i :: path => x.children[i]?.bind fun c => c.at? path

lemma mem_positions_cons {x : Piece} {i : Nat} {path : List Nat} :
    i :: path ∈ x.positions ↔ ∃ c, x.children[i]? = some c ∧ path ∈ c.positions := by
  rw [positions_eq]
  simp only [List.mem_cons, reduceCtorEq, false_or, List.mem_flatMap, List.mem_map,
    List.cons.injEq, Prod.exists, List.mem_zipIdx_iff_getElem?]
  constructor
  · rintro ⟨c, _, hc, _, hpath, rfl, rfl⟩
    exact ⟨c, hc, hpath⟩
  · rintro ⟨c, hc, hpath⟩
    exact ⟨c, i, hc, path, hpath, rfl, rfl⟩

/-- A walk comes to every position of the tree. -/
lemma mem_positions {x : Piece} {path : List Nat} : path ∈ x.positions ↔ (x.at? path).isSome := by
  induction path generalizing x with
  | nil =>
    rw [positions_eq]
    exact iff_of_true List.mem_cons_self rfl
  | cons i path ih =>
    rw [mem_positions_cons, at?]
    cases x.children[i]? <;> simp [ih]

lemma pairwise_zipIdx {α : Type} (l : List α) : l.zipIdx.Pairwise fun a b => a.2 < b.2 := by
  rw [← List.pairwise_map (f := Prod.snd), List.zipIdx_map_snd]
  exact List.pairwise_lt_range'

/-- It comes to them in lexicographic order, and so to each of them once. -/
lemma pairwise_positions (x : Piece) : x.positions.Pairwise (List.Lex (· < ·)) := by
  induction x using induction with
  | h x ih =>
    rw [positions_eq, List.pairwise_cons, List.pairwise_flatMap]
    refine ⟨fun path hpath => ?_, fun c hc => ?_, ?_⟩
    · obtain ⟨c, -, hpath⟩ := List.mem_flatMap.mp hpath
      obtain ⟨_, -, rfl⟩ := List.mem_map.mp hpath
      exact .nil
    · exact List.pairwise_map.mpr ((ih c.1 (List.fst_mem_of_mem_zipIdx hc)).imp .cons)
    -- paths into different children are told apart by their first step
    · refine (pairwise_zipIdx _).imp fun hlt path hpath path' hpath' => ?_
      obtain ⟨_, -, rfl⟩ := List.mem_map.mp hpath
      obtain ⟨_, -, rfl⟩ := List.mem_map.mp hpath'
      exact .rel hlt

/-- What a walk finds is what stands at the positions. -/
lemma map_positions (x : Piece) : x.positions.map x.at? = x.walk.map some := by
  induction x using induction with
  | h x ih =>
    have hchild : ∀ c ∈ x.children.zipIdx,
        (c.1.positions.map (c.2 :: ·)).map x.at? = c.1.walk.map some := by
      intro c hc
      have hat : x.at? ∘ (c.2 :: ·) = c.1.at? := by
        funext path
        rw [Function.comp_apply, at?, List.mem_zipIdx_iff_getElem?.mp hc, Option.bind_some]
      rw [List.map_map, hat, ih c.1 (List.fst_mem_of_mem_zipIdx hc)]
    calc x.positions.map x.at?
        = some x :: (x.children.zipIdx.flatMap fun c => c.1.walk.map some) := by
          rw [positions_eq, List.map_cons, List.map_flatMap, List.flatMap_congr hchild, at?]
      _ = x.walk.map some := by
          rw [walk_eq, List.map_cons, List.map_flatMap,
            ← List.flatMap_map Prod.fst fun c : Piece => c.walk.map some, List.zipIdx_map_fst]

end Piece

/-! ### Visitors -/

namespace Visitor

variable {m : Type → Type} [Monad m]

/-- The hook for a node. -/
def hook (v : Visitor m) : Piece → m Unit → m Unit
  | .program p => v.program p
  | .declaration d => v.declaration d
  | .object c => v.object c
  | .function f => v.function f
  | .variableDecl w => v.variableDecl w
  | .enum e => v.enum e
  | .enumItem i => v.enumItem i
  | .foreign f => v.foreign f
  | .parameter p => v.parameter p
  | .block b => v.block b
  | .statement s => v.statement s
  | .expression e => v.expression e
  | .typeExpr t => v.typeExpr t

/-- The walk from a node on. -/
def visit (v : Visitor m) : Piece → m Unit
  | .program p => v.visitProgram p
  | .declaration d => v.visitDecl d
  | .object c => v.visitClass c
  | .function f => v.visitFunction f
  | .variableDecl w => v.visitVariable w
  | .enum e => v.visitEnum e
  | .enumItem i => v.visitEnumItem i
  | .foreign f => v.visitForeign f
  | .parameter p => v.visitParameter p
  | .block b => v.visitBlock b
  | .statement s => v.visitStmt s
  | .expression e => v.visitExpr e
  | .typeExpr t => v.visitType t

/-- What treats the elements of a list one after the other. -/
lemma eq_forM {α : Type} {all : List α → m Unit} {one : α → m Unit} (hnil : all [] = pure ())
    (hcons : ∀ a rest, all (a :: rest) = do one a; all rest) (l : List α) : all l = forM l one := by
  induction l with
  | nil => rw [hnil, List.forM_nil]
  | cons a rest ih => rw [hcons, ih, List.forM_cons]

variable (v : Visitor m)

lemma visitTypes_eq (ts : List TypeExpr) : v.visitTypes ts = forM ts v.visitType :=
  eq_forM rfl (fun _ _ => rfl) ts

lemma visitFieldTypes_eq (fs : List FieldType) :
    v.visitFieldTypes fs = forM fs fun f => v.visitType f.type :=
  eq_forM rfl (fun ⟨_, _, _⟩ _ => rfl) fs

lemma visitEnumItems_eq (is : List EnumItem) : v.visitEnumItems is = forM is v.visitEnumItem :=
  eq_forM rfl (fun _ _ => rfl) is

lemma visitExprs_eq (es : List Expr) : v.visitExprs es = forM es v.visitExpr :=
  eq_forM rfl (fun _ _ => rfl) es

lemma visitFieldValues_eq (fs : List FieldValue) :
    v.visitFieldValues fs = forM fs fun f => v.visitExpr f.value :=
  eq_forM rfl (fun ⟨_, _, _⟩ _ => rfl) fs

lemma visitStmts_eq (ss : List Stmt) : v.visitStmts ss = forM ss v.visitStmt :=
  eq_forM rfl (fun _ _ => rfl) ss

lemma visitParameters_eq (ps : List Parameter) : v.visitParameters ps = forM ps v.visitParameter :=
  eq_forM rfl (fun _ _ => rfl) ps

lemma visitDecls_eq (ds : List Decl) : v.visitDecls ds = forM ds v.visitDecl :=
  eq_forM rfl (fun _ _ => rfl) ds

/-- **A whole walk.** If at each node something is done and then the nodes below are visited, it is
done for all nodes in order. This may be said of what is seen of the walk through `view`. -/
theorem view_visit {n : Type → Type} [Monad n] [LawfulMonad n] (view : m Unit → n Unit)
    {act : Piece → n Unit} (hdone : view (pure ()) = pure ())
    (hseq : ∀ a b, view (do a; b) = do view a; view b)
    (hlayer : ∀ x, view (v.visit x) = do act x; view (forM x.children v.visit)) (x : Piece) :
    view (v.visit x) = forM x.walk act := by
  induction x using Piece.induction with
  | h x ih =>
    -- the nodes right below, one by one; the induction hypothesis is about each of them alone
    have hchildren : ∀ cs : List Piece, (∀ c ∈ cs, view (v.visit c) = forM c.walk act) →
        view (forM cs v.visit) = forM (cs.flatMap Piece.walk) act := by
      intro cs hcs
      induction cs with
      | nil => rw [List.forM_nil, hdone, List.flatMap_nil, List.forM_nil]
      | cons c cs ihs =>
        obtain ⟨hc, hcs⟩ := List.forall_mem_cons.mp hcs
        rw [List.forM_cons, hseq, hc, ihs hcs, List.flatMap_cons, List.forM_append]
    rw [hlayer, hchildren _ ih, Piece.walk_eq, List.forM_cons]

variable [LawfulMonad m]

lemma visitType?_eq (t : Option TypeExpr) : v.visitType? t = forM t.toList v.visitType := by
  cases t <;> simp [visitType?]

lemma visitExpr?_eq (e : Option Expr) : v.visitExpr? e = forM e.toList v.visitExpr := by
  cases e <;> simp [visitExpr?]

/-- **One layer of a walk**: the hook gets the node and the walk over what stands right below it. -/
theorem visit_eq (x : Piece) : v.visit x = v.hook x (forM x.children v.visit) := by
  cases x with
  | program p =>
    simp [visit, visitProgram, hook, Piece.children, visitDecls_eq, visitStmts_eq]
  | declaration d => cases d <;> simp [visit, visitDecl, hook, Piece.children]
  | object c =>
    obtain ⟨_, _, _, _⟩ := c
    simp [visit, visitClass, hook, Piece.children, visitType?_eq, visitDecls_eq]
  | function f =>
    simp [visit, visitFunction, hook, Piece.children, visitType?_eq, visitParameters_eq]
  | variableDecl w =>
    simp [visit, visitVariable, hook, Piece.children, visitType?_eq, visitExpr?_eq]
  | enum e => simp [visit, visitEnum, hook, Piece.children, visitEnumItems_eq]
  | enumItem i =>
    obtain ⟨_, _, _⟩ := i
    simp [visit, visitEnumItem, hook, Piece.children, visitTypes_eq]
  | foreign f =>
    simp [visit, visitForeign, hook, Piece.children, visitParameters_eq, visitType?_eq]
  | parameter p => simp [visit, visitParameter, hook, Piece.children]
  | block b =>
    obtain ⟨_, _⟩ := b
    simp [visit, visitBlock, hook, Piece.children, visitStmts_eq]
  | statement s =>
    cases s with
    | branch _ _ _ no => cases no <;> simp [visit, visitStmt, hook, Piece.children]
    | _ => simp [visit, visitStmt, hook, Piece.children, visitExpr?_eq]
  | expression e =>
    cases e <;> simp [visit, visitExpr, hook, Piece.children, visitExprs_eq, visitFieldValues_eq]
  | typeExpr t =>
    cases t with
    | function _ _ returns =>
      cases returns <;> simp [visit, visitType, hook, Piece.children, visitTypes_eq]
    | _ =>
      simp [visit, visitType, hook, Piece.children, visitTypes_eq, visitFieldTypes_eq,
        visitEnumItems_eq]

end Visitor

/-! ### Recorded walks -/

/-- How a visit is recorded. -/
def Piece.event : Piece → Event
  | .program p => ⟨.program, p.toNode, ""⟩
  | .declaration d => ⟨.declaration, d.node, d.describe⟩
  | .object c => .ofIdent .object c.name
  | .function f => .ofIdent .function f.name
  | .variableDecl v => .ofIdent .variableDecl v.name
  | .enum e => .ofIdent .enum e.name
  | .enumItem i => ⟨.enumItem, i.toNode, i.name.name⟩
  | .foreign f => .ofIdent .foreign f.name
  | .parameter p => ⟨.parameter, p.toNode, p.name.name⟩
  | .block b => ⟨.block, b.toNode, if b.endsWithReturn then "true" else "false"⟩
  | .statement s => ⟨.statement, s.node, s.describe⟩
  | .expression e => .ofExpr e
  | .typeExpr t => ⟨.type, t.node, t.describe⟩

namespace Tour

variable {limit : Option Nat}

/-- A recorded walk records its nodes one after the other. -/
lemma visit_recorder (x : Piece) :
    (recorder limit).visit x = forM (x.walk.map Piece.event) (record limit) := by
  rw [List.forM_map]
  refine Visitor.view_visit _ id rfl (fun _ _ => rfl) (fun x => ?_) x
  rw [id, Visitor.visit_eq]
  cases x <;> rfl

lemma run_record (e : Event) (seen : Array Event) :
    (record limit e).run.run seen =
      if limit.any (· ≤ seen.size) then (.error e.node.id, seen) else (.ok (), seen.push e) := by
  change (if limit.any (· ≤ seen.size) then (throw e.node.id : Tour Unit)
    else set (seen.push e)).run.run seen = _
  split <;> rfl

/-- A failing event ends the walk, any other one is followed by the rest. -/
lemma run_forM_cons (e : Event) (events : List Event) (seen : Array Event) :
    (forM (e :: events) (record limit)).run.run seen =
      if limit.any (· ≤ seen.size) then (.error e.node.id, seen)
      else (forM events (record limit)).run.run (seen.push e) := by
  rw [List.forM_cons]
  change (ExceptT.bindCont (fun _ => forM events (record limit)) ((record limit e).run.run seen).1)
    ((record limit e).run.run seen).2 = _
  rw [run_record]
  split <;> rfl

/-- Without a limit all events are recorded. -/
lemma run_forM_none (events : List Event) (seen : Array Event) :
    (forM events (record none)).run.run seen = (.ok (), seen ++ events) := by
  induction events generalizing seen with
  | nil => simp; rfl
  | cons e events ih =>
    rw [run_forM_cons, if_neg (by simp), ih]
    simp

/-- With a limit the events up to it are recorded, and the next one is refused. -/
lemma run_forM_some {k : Nat} (events : List Event) (seen : Array Event) :
    (forM events (record (some (seen.size + k)))).run.run seen =
      (match events[k]? with
        | some refused => .error refused.node.id
        | none => .ok (), seen ++ events.take k) := by
  induction events generalizing seen k with
  | nil => simp; rfl
  | cons e events ih =>
    rw [run_forM_cons]
    cases k with
    | zero => simp
    | succ k =>
      have hsize : seen.size + (k + 1) = (seen.push e).size + k := by rw [Array.size_push]; omega
      rw [if_neg (by simp), hsize, ih]
      simp

end Tour

namespace Program

/-- **A recorded walk sees every node once and stops where it is told to.** Its events belong to the
positions of the tree, each once, in lexicographic order: a node comes before those below it, and
they come in source order. With a limit of `k` the first `k` of these events are recorded, and the
node of the next one, if there is one, is where the walk stopped. -/
theorem tour_exact (p : Program) : ∃ (positions : List (List Nat)) (events : List Event),
    positions.Pairwise (List.Lex (· < ·)) ∧
    (∀ path, path ∈ positions ↔ ((Piece.program p).at? path).isSome) ∧
    (positions.map fun path => ((Piece.program p).at? path).map Piece.event) = events.map some ∧
    p.tour none = (events.toArray, none) ∧
    ∀ k, p.tour (some k) = ((events.take k).toArray, events[k]?.map (·.node.id)) := by
  have hvisit : ∀ limit, (Tour.recorder limit).visitProgram p = _ := fun limit =>
    Tour.visit_recorder (.program p)
  refine ⟨(Piece.program p).positions, (Piece.program p).walk.map Piece.event,
    Piece.pairwise_positions _, fun _ => Piece.mem_positions, ?_, ?_, fun k => ?_⟩
  · have hevents := congrArg (List.map (Option.map Piece.event)) (Piece.program p).map_positions
    rw [List.map_map, List.map_map] at hevents
    rw [List.map_map]
    exact hevents
  · rw [tour, hvisit, Tour.run_forM_none]
    simp
  · have hrun := Tour.run_forM_some (k := k) ((Piece.program p).walk.map Piece.event) #[]
    rw [List.size_toArray, List.length_nil, Nat.zero_add] at hrun
    rw [tour, hvisit, hrun]
    cases ((Piece.program p).walk.map Piece.event)[k]? <;> simp

end Program

end Sema
