import Sema.Analysis.Report
import Sema.Proofs.Nodes
import Sema.Proofs.Parts
import Sema.Proofs.Pieces
import Sema.Proofs.Run

/-!
The two passes that only check. Each is a visitor that looks at a node and then descends, so that it
ends well if every node passes, and otherwise complains about the first node of the walk that does
not. The name of the declaration around a node is added to a fault on the way out and does not count
here. A variable statement and its variable share a node, which is looked at only once; as nothing
comes between the two in the walk, this makes no difference.
-/

namespace Sema

open Sema.Action

/-! ### The first that fails -/

/-- `x` is the first element of the list with the property. -/
def First {α : Type} (P : α → Prop) (xs : List α) (x : α) : Prop :=
  ∃ before after, xs = before ++ x :: after ∧ P x ∧ ∀ y ∈ before, ¬ P y

section

variable {α ε : Type} {act : α → Except ε Unit} {P : α → Prop} {xs : List α}

lemma First.head {x : α} (h : P x) : First P (x :: xs) x :=
  ⟨[], xs, rfl, h, by simp⟩

lemma First.tail {x y : α} (hy : ¬ P y) (h : First P xs x) : First P (y :: xs) x := by
  obtain ⟨before, after, rfl, hx, hbefore⟩ := h
  exact ⟨y :: before, after, rfl, hx, List.forall_mem_cons.mpr ⟨hy, hbefore⟩⟩

/-- A sequence of checks ends well if each of them does. -/
lemma forM_eq_ok_iff : forM xs act = .ok () ↔ ∀ x ∈ xs, act x = .ok () := by
  induction xs with
  | nil => simp [pure, Except.pure]
  | cons x xs ih =>
    rw [List.forM_cons, List.forall_mem_cons, ← ih]
    rcases act x with e | _ <;> simp [bind, Except.bind]

/-- A sequence of checks that fails ends as the first one that does. -/
lemma first_of_forM_eq_error {e : ε} (h : forM xs act = .error e) :
    ∃ x, First (fun y => act y ≠ .ok ()) xs x ∧ act x = .error e := by
  induction xs with
  | nil => simp [pure, Except.pure] at h
  | cons x xs ih =>
    rw [List.forM_cons] at h
    rcases hx : act x with e' | _
    · rw [hx] at h
      refine ⟨x, .head (by simp [hx]), ?_⟩
      rw [hx]
      exact h
    · rw [hx] at h
      obtain ⟨y, hy, he⟩ := ih h
      exact ⟨y, hy.tail (by simp [hx]), he⟩

end

/-! ### Faults without what is around them -/

/-- What a check complains about and where, without the declaration around it. -/
def bare (x : Except Fault Unit) : Except (Cause × Location) Unit :=
  x.mapError fun f => (f.cause, f.location)

lemma bare_seq (x y : Except Fault Unit) : bare (do x; y) = (do bare x; bare y) := by
  cases x <;> rfl

lemma bare_enclose (name : String) (x : Except Fault Unit) :
    bare (Fault.enclose name x) = bare x := by
  cases x <;> rfl

/-- Checking twice is checking once. -/
lemma seq_seq {ε : Type} (x y : Except ε Unit) : (do x; x; y) = (do x; y) := by
  cases x <;> rfl

lemma bare_eq_ok_iff {x : Except Fault Unit} : bare x = .ok () ↔ x = .ok () := by
  cases x <;> simp [bare, Except.mapError]

lemma bare_eq_error_iff {x : Except Fault Unit} {what : Cause × Location} :
    bare x = .error what ↔ ∃ f, x = .error f ∧ (f.cause, f.location) = what := by
  cases x <;> simp [bare, Except.mapError]

/-- **A check over a tree** that looks at each node before those below it: it ends well if all nodes
pass, and otherwise it complains as the first node does that does not. -/
lemma Visitor.visit_exact {v : Visitor (Except Fault)} {own : Piece → Except Fault Unit}
    (hlayer : ∀ x, bare (v.visit x) = (do bare (own x); bare (forM x.children v.visit)))
    (x : Piece) :
    (v.visit x = .ok () ↔ ∀ y ∈ x.walk, own y = .ok ()) ∧
      ∀ f, v.visit x = .error f → ∃ y g, First (fun z => own z ≠ .ok ()) x.walk y ∧
        own y = .error g ∧ f.cause = g.cause ∧ f.location = g.location := by
  -- the names that are put around a fault would keep the walk from being a plain sequence
  have hwalk : bare (v.visit x) = forM x.walk fun y => bare (own y) :=
    view_visit v bare rfl bare_seq hlayer x
  constructor
  · rw [← bare_eq_ok_iff, hwalk, forM_eq_ok_iff]
    simp only [bare_eq_ok_iff]
  · intro f hf
    have herror : bare (v.visit x) = .error (f.cause, f.location) := by rw [hf]; rfl
    obtain ⟨y, hfirst, hy⟩ := first_of_forM_eq_error (hwalk.symm.trans herror)
    obtain ⟨g, hg, heq⟩ := bare_eq_error_iff.mp hy
    simp only [ne_eq, bare_eq_ok_iff] at hfirst
    obtain ⟨hcause, hlocation⟩ := Prod.mk.inj heq
    exact ⟨y, g, hfirst, hg, hcause.symm, hlocation.symm⟩

/-! ### Placeholders -/

/-- The node has a type, and no placeholder is part of it. Classes and enums have no parts. -/
def Context.Finished (c : Context) (n : NodeId) : Prop :=
  ∃ x, c.nodeType? n = some x ∧ ∀ y, c.types.Part x y → (c.types.get y).isPlaceholder = false

/-- The node of a piece that must have a complete type, and how it is called in a fault. -/
def Piece.typed? : Piece → Option (Node × String)
  | .declaration d => some (d.node, d.describe)
  | .variableDecl v => some (v.toNode, v.describe)
  | .enumItem i => some (i.toNode, i.describe)
  | .parameter p => some (p.toNode, p.describe)
  | .block b => some (b.toNode, "block")
  | .statement s => some (s.node, s.describe)
  | .expression e => some (e.node, e.describe)
  | .typeExpr t => some (t.node, t.describe)
  | .program _ | .object _ | .function _ | .enum _ | .foreign _ => none

namespace Piece

/-- The nodes of a piece that must have types. -/
def nodes : Piece → List NodeId
  | program p => p.nodes
  | declaration d => d.all.flatMap fun d => d.signature ++ d.inside
  | object c => TypeExpr.nodes? c.base ++ c.all.flatMap fun d => d.signature ++ d.inside
  | function f => f.parameters.flatMap Parameter.nodes ++ TypeExpr.nodes? f.returns ++ f.body.nodes
  | variableDecl v => v.nodes
  | enum e => EnumItem.nodesAll e.items
  | enumItem i => i.nodes
  | foreign f => f.parameters.flatMap Parameter.nodes ++ TypeExpr.nodes? f.returns
  | parameter p => p.nodes
  | block b => b.nodes
  | statement s => s.nodes
  | expression e => e.nodes
  | typeExpr t => t.nodes

/-- They are its own and those of the pieces right below it. -/
lemma mem_nodes {n : NodeId} (x : Piece) : n ∈ x.nodes ↔
    (∃ t, x.typed? = some t ∧ t.1.id = n) ∨ ∃ c ∈ x.children, n ∈ c.nodes := by
  cases x with
  | program p =>
    simp only [nodes, typed?, children, Program.nodes, Program.allDecls, List.mem_append,
      List.mem_flatMap, Decl.mem_allOf, Stmt.mem_nodesAll, List.mem_map]
    grind [nodes]
  | declaration d =>
    rcases d with ⟨_, _, _, _⟩ | _ | _ | _ | _ <;>
      simp [nodes, typed?, children, Decl.all, Decl.signature, Decl.inside, Decl.node, eq_comm,
        VariableDecl.nodes]
  | object c =>
    rcases c with ⟨_, _, _ | _, _⟩ <;>
      simp [nodes, typed?, children, ClassDecl.all, Decl.mem_allOf, TypeExpr.nodes?] <;> grind
  | function f =>
    rcases f with ⟨_, _, _, _ | _, _⟩ <;>
      simp [nodes, typed?, children, TypeExpr.nodes?, or_and_right, exists_or]
  | variableDecl v =>
    rcases v with ⟨_, _, _ | _, _ | _⟩ <;>
      simp [nodes, typed?, children, TypeExpr.nodes?, Expr.nodes?, VariableDecl.nodes, eq_comm]
  | enum e => simp [nodes, typed?, children, EnumItem.mem_nodesAll]
  | enumItem i =>
    obtain ⟨_, _, _⟩ := i
    simp [nodes, typed?, children, EnumItem.nodes, TypeExpr.mem_nodesAll, eq_comm]
  | foreign f => rcases f with ⟨_, _, _, _ | _⟩ <;> simp [nodes, typed?, children, TypeExpr.nodes?]
  | parameter p => simp [nodes, typed?, children, Parameter.nodes, eq_comm]
  | block b =>
    obtain ⟨_, _⟩ := b
    simp [nodes, typed?, children, Block.nodes, Stmt.mem_nodesAll, eq_comm]
  | statement s =>
    rcases s with _ | ⟨_, _, _ | _, _ | _⟩ | ⟨_, _ | _⟩ | ⟨_, _, _, _ | _⟩ | _ | ⟨_, _⟩ <;>
      simp [nodes, typed?, children, Stmt.nodes, Stmt.node, eq_comm, Expr.nodes?, Block.nodes,
        VariableDecl.nodes]
  | expression e =>
    cases e <;> simp [nodes, typed?, children, Expr.nodes, Expr.node, eq_comm, Expr.mem_nodesAll,
      FieldValue.mem_nodesAll]
  | typeExpr t =>
    rcases t with _ | ⟨_, _, _ | _⟩ | _ | _ <;>
      simp [nodes, typed?, children, TypeExpr.nodes, TypeExpr.node, eq_comm, TypeExpr.mem_nodesAll,
        FieldType.mem_nodesAll, EnumItem.mem_nodesAll]

/-- A walk comes to all of them. -/
lemma mem_nodes_iff {n : NodeId} (x : Piece) :
    n ∈ x.nodes ↔ ∃ y ∈ x.walk, ∃ t, y.typed? = some t ∧ t.1.id = n := by
  induction x using Piece.induction with
  | h x ih =>
    rw [mem_nodes, walk_eq]
    simp only [List.mem_cons, List.mem_flatMap, exists_eq_or_imp]
    refine or_congr .rfl ⟨fun ⟨c, hc, hn⟩ => ?_, fun ⟨y, ⟨c, hc, hy⟩, hn⟩ => ?_⟩
    · obtain ⟨y, hy, ht⟩ := (ih c hc).mp hn
      exact ⟨y, ⟨c, hc, hy⟩, ht⟩
    · exact ⟨c, hc, (ih c hc).mpr ⟨y, hy, hn⟩⟩

end Piece

namespace Completeness

variable {c : Context}

lemma check_eq_ok_iff {node : Node} {text : String} :
    check c node text = .ok () ↔ c.Finished node.id := by
  unfold check Context.Finished
  rcases c.nodeType? node.id with _ | x
  · simp
  · have hcomplete : c.types.isIncomplete x = false ↔
        ∀ y, c.types.Part x y → (c.types.get y).isPlaceholder = false := by
      rw [← Bool.not_eq_true, TypeStore.isIncomplete_iff]
      simp
    simp [← hcomplete]

lemma check_eq_error {node : Node} {text : String} {f : Fault} (h : check c node text = .error f) :
    f.cause = .incomplete text ((c.displayType? node.id).getD "<untyped>") ∧
      f.location = node.location := by
  unfold check at h
  unfold Context.displayType?
  rcases hx : c.nodeType? node.id with _ | x
  · rw [hx] at h
    cases h
    exact ⟨rfl, rfl⟩
  · rw [hx] at h
    dsimp only at h
    split at h
    · cases h
      exact ⟨rfl, rfl⟩
    · cases h

/-- The check of one node. -/
def checkPiece (c : Context) (x : Piece) : Except Fault Unit :=
  match x.typed? with
  | some (node, text) => check c node text
  | none => .ok ()

/-- Each node is checked before those below it. -/
lemma bare_visit (c : Context) (x : Piece) : bare ((checker c).visit x) =
    (do bare (checkPiece c x); bare (forM x.children (checker c).visit)) := by
  have hvar : ∀ v, bare ((checker c).visit (.variableDecl v)) = (do
      bare (check c v.toNode v.describe)
      bare (forM (Piece.variableDecl v).children (checker c).visit)) := by
    intro v
    rw [Visitor.visit_eq]
    exact (bare_seq _ _).trans (by rw [bare_enclose])
  cases x with
  | variableDecl v => exact hvar v
  | declaration d =>
    rw [Visitor.visit_eq]
    exact (bare_enclose _ _).trans (bare_seq _ _)
  | statement s =>
    rw [Visitor.visit_eq]
    cases s with
    | var v =>
      -- a variable statement is checked as its variable, which is all there is below it
      have hone : forM (Piece.statement (.var v)).children (checker c).visit =
          (checker c).visit (.variableDecl v) := by simp [Piece.children]
      have hsame : checkPiece c (.statement (.var v)) = check c v.toNode v.describe := rfl
      rw [hone, hvar, hsame, seq_seq, ← hvar]
      rfl
    | _ => exact bare_seq _ _
  | enumItem | parameter | block | expression | typeExpr =>
    rw [Visitor.visit_eq]
    exact bare_seq _ _
  | program | object | function | enum | foreign =>
    rw [Visitor.visit_eq]
    rfl

end Completeness

/-! ### Nulls -/

/-- The type is `Optional<T>` for a class `T`. -/
def TypeStore.OptionalClass (t : TypeStore) (s : Slot) : Prop :=
  ∃ inner, t.get s = .generic Shape.optionalName [inner] ∧ (t.get inner).isObject = true

namespace Nullability

variable {c : Context} {e : Expr}

lemma optionalClass_iff {t : TypeStore} {s : Slot} :
    ((t.optionalInner? s).any fun inner => (t.get inner).isObject) = true ↔ t.OptionalClass s := by
  unfold TypeStore.optionalInner? TypeStore.OptionalClass Shape.argumentOf?
  split
  · next name inner hs =>
    rw [hs]
    by_cases hname : name = Shape.optionalName <;> simp [hname]
  · next hs => simpa using fun inner hinner => absurd hinner (hs _ _)

lemma check_eq_ok_iff :
    check c e = .ok () ↔ ∀ s, c.nodeType? e.node.id = some s → c.types.OptionalClass s := by
  unfold check
  rcases c.nodeType? e.node.id with _ | s
  · simp
  · simp [← optionalClass_iff]

lemma check_eq_error {f : Fault} (h : check c e = .error f) :
    ∃ s, c.nodeType? e.node.id = some s ∧ f.cause = .nullability (c.types.display s) ∧
      f.location = e.node.location := by
  unfold check at h
  rcases hs : c.nodeType? e.node.id with _ | s
  · rw [hs] at h
    cases h
  · rw [hs] at h
    dsimp only at h
    split at h
    · cases h
    · cases h
      exact ⟨s, rfl, rfl, rfl⟩

/-- The check of one node. -/
def checkPiece (c : Context) : Piece → Except Fault Unit
  | .expression e => if e.isNull then check c e else .ok ()
  | _ => .ok ()

lemma bare_visit (c : Context) (x : Piece) : bare ((checker c).visit x) =
    (do bare (checkPiece c x); bare (forM x.children (checker c).visit)) := by
  rw [Visitor.visit_eq]
  cases x with
  | declaration | variableDecl => exact bare_enclose _ _
  | expression e =>
    refine Eq.trans ?_ (bare_seq _ _)
    cases h : e.isNull <;> simp [Visitor.hook, checker, checkPiece, h]
    rfl
  | _ => rfl

end Nullability

/-! ### The two passes -/

namespace Context

/-- The node of the piece has no type, or a type that is not complete. -/
def Unfinished (c : Context) (x : Piece) : Prop :=
  ∃ node text, x.typed? = some (node, text) ∧ ¬ c.Finished node.id

/-- The piece is a `null` whose type is not that of an optional class. -/
def Misplaced (c : Context) (x : Piece) : Prop :=
  ∃ e s, x = .expression e ∧ e.isNull = true ∧ c.nodeType? e.node.id = some s ∧
    ¬ c.types.OptionalClass s

variable {c : Context} {x : Piece}

lemma checkPiece_eq_ok_iff : Completeness.checkPiece c x = .ok () ↔ ¬ c.Unfinished x := by
  unfold Completeness.checkPiece Unfinished
  rcases hx : x.typed? with _ | ⟨node, text⟩
  · simp
  · simp [Completeness.check_eq_ok_iff]

lemma checkNull_eq_ok_iff : Nullability.checkPiece c x = .ok () ↔ ¬ c.Misplaced x := by
  unfold Misplaced
  cases x with
  | expression e =>
    rw [Nullability.checkPiece]
    split
    · next h => simp [Nullability.check_eq_ok_iff, h]
    · next h => simp [h]
  | _ => simp [Nullability.checkPiece]

end Context

namespace Program

variable (p : Program) (c : Context)

lemma checkComplete_exact :
    (p.checkComplete c = .ok () ↔ ∀ x ∈ (Piece.program p).walk, ¬ c.Unfinished x) ∧
    ∀ f, p.checkComplete c = .error f → ∃ x node text,
      First c.Unfinished (Piece.program p).walk x ∧ x.typed? = some (node, text) ∧
      f.location = node.location ∧
      f.cause = .incomplete text ((c.displayType? node.id).getD "<untyped>") := by
  obtain ⟨hok, hfault⟩ := Visitor.visit_exact (Completeness.bare_visit c) (.program p)
  simp only [ne_eq, Context.checkPiece_eq_ok_iff, not_not] at hok hfault
  refine ⟨hok, fun f hf => ?_⟩
  obtain ⟨x, g, hfirst, hx, hcause, hlocation⟩ := hfault f hf
  unfold Completeness.checkPiece at hx
  rcases htyped : x.typed? with _ | ⟨node, text⟩
  · rw [htyped] at hx
    cases hx
  · rw [htyped] at hx
    obtain ⟨hcause', hlocation'⟩ := Completeness.check_eq_error hx
    exact ⟨x, node, text, hfirst, htyped, hlocation.trans hlocation', hcause.trans hcause'⟩

lemma checkNulls_exact :
    (p.checkNulls c = .ok () ↔ ∀ x ∈ (Piece.program p).walk, ¬ c.Misplaced x) ∧
    ∀ f, p.checkNulls c = .error f → ∃ e s,
      First c.Misplaced (Piece.program p).walk (.expression e) ∧
      c.nodeType? e.node.id = some s ∧ f.location = e.node.location ∧
      f.cause = .nullability (c.types.display s) := by
  obtain ⟨hok, hfault⟩ := Visitor.visit_exact (Nullability.bare_visit c) (.program p)
  simp only [ne_eq, Context.checkNull_eq_ok_iff, not_not] at hok hfault
  refine ⟨hok, fun f hf => ?_⟩
  obtain ⟨x, g, hfirst, hx, hcause, hlocation⟩ := hfault f hf
  obtain ⟨before, after, hwalk, ⟨e, s, rfl, hnull, hs, hclass⟩, hbefore⟩ := hfirst
  rw [Nullability.checkPiece, if_pos hnull] at hx
  obtain ⟨s', hs', hcause', hlocation'⟩ := Nullability.check_eq_error hx
  exact ⟨e, s', ⟨before, after, hwalk, ⟨e, s, rfl, hnull, hs, hclass⟩, hbefore⟩, hs',
    hlocation.trans hlocation', hcause.trans hcause'⟩

end Program

namespace Pass

/-- **The checks are exact.** Neither changes anything. The check for completeness ends well just if
all declarations, variables, parameters, enum items, blocks, statements, expressions and annotations
have complete types, and otherwise describes and locates the first that has not. The check of nulls
ends well just if every `null` with a type has that of an optional class, and otherwise locates the
first that has not. -/
theorem checks_exact (a : Analysis) :
    (∃ r, completeness.run.outcome a = (r, a) ∧
      (r = .ok () ↔ ∀ x ∈ (Piece.program a.program).walk, ∀ node text,
        x.typed? = some (node, text) → a.context.Finished node.id) ∧
      ∀ f, r = .error f → ∃ x node text,
        First a.context.Unfinished (Piece.program a.program).walk x ∧
        x.typed? = some (node, text) ∧ f.location = node.location ∧
        f.cause = .incomplete text ((a.context.displayType? node.id).getD "<untyped>")) ∧
    ∃ r, nullability.run.outcome a = (r, a) ∧
      (r = .ok () ↔ ∀ e s, .expression e ∈ (Piece.program a.program).walk → e.isNull = true →
        a.context.nodeType? e.node.id = some s → a.context.types.OptionalClass s) ∧
      ∀ f, r = .error f → ∃ e s,
        First a.context.Misplaced (Piece.program a.program).walk (.expression e) ∧
        a.context.nodeType? e.node.id = some s ∧ f.location = e.node.location ∧
        f.cause = .nullability (a.context.types.display s) := by
  obtain ⟨hcomplete, hincomplete⟩ := a.program.checkComplete_exact a.context
  obtain ⟨hnulls, hmisplaced⟩ := a.program.checkNulls_exact a.context
  refine ⟨⟨_, rfl, hcomplete.trans ?_, hincomplete⟩, ⟨_, rfl, hnulls.trans ?_, hmisplaced⟩⟩
  · simp only [Context.Unfinished, not_exists, not_and, not_not]
  · simp only [Context.Misplaced, not_exists, not_and, not_not]
    constructor
    · exact fun h e s he => h _ he e s rfl
    · rintro h x hx e s rfl
      exact h e s hx

end Pass

end Sema
