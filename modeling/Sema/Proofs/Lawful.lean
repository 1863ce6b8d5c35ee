import Sema.Proofs.Accepted
import Sema.Proofs.Pieces
import Sema.Typing.Statement

/-!
The rules of typing, as judgements about a context in which every node has its type. The rules for
statements take the slot of the result of the function around.
-/

namespace Sema

mutual

/-- Whether an expression has a type also where none is expected. An array has one as soon as one
of its elements has. -/
def Expr.selfTyped : Expr → Bool
  | .literal _ .null | .shorthand .. => false
  | .array _ elements => Expr.anySelfTyped elements
  | .record _ fields => FieldValue.allSelfTyped fields
  | .literal .. | .identifier _ | .self _ | .super _ | .call .. | .binary .. | .unary .. |
    .member .. | .index .. | .assign .. => true

def Expr.anySelfTyped : List Expr → Bool
  | [] => false
  | e :: rest => e.selfTyped || Expr.anySelfTyped rest

def FieldValue.allSelfTyped : List FieldValue → Bool
  | [] => true
  | ⟨_, _, value⟩ :: rest => value.selfTyped && FieldValue.allSelfTyped rest

end

lemma Expr.exists_selfTyped : ∀ {es : List Expr}, Expr.anySelfTyped es = true →
    ∃ e ∈ es, e.selfTyped = true
  | e :: rest, h => by
    rcases Bool.or_eq_true_iff.mp h with h | h
    · exact ⟨e, List.mem_cons_self, h⟩
    · obtain ⟨d, hd, h⟩ := Expr.exists_selfTyped h
      exact ⟨d, List.mem_cons_of_mem _ hd, h⟩

lemma FieldValue.forall_selfTyped : ∀ {values : List FieldValue},
    FieldValue.allSelfTyped values = true → ∀ f ∈ values, f.value.selfTyped = true
  | [], _ => by simp
  | ⟨_, _, _⟩ :: _, h =>
    have h := Bool.and_eq_true_iff.mp h
    List.forall_mem_cons.mpr ⟨h.1, FieldValue.forall_selfTyped h.2⟩

/-- The operands of an operator agree. Those of `is` are compared only if both have types of their
own. -/
def BinaryOp.Relates (c : Context) (op : BinaryOp) (left right : Expr) (l r : Slot) : Prop :=
  if op = .is then
    left.selfTyped = true → right.selfTyped = true →
      Relation.hierarchy.holds c.types (c.types.valueOf l) (c.types.valueOf r) = true
  else
    Relation.value.holds c.types l r = true ∧
      Resolve.operandFits op (c.types.get (c.types.valueOf l)) = true

/-- The expression keeps the rule for expressions of its kind. -/
def Expr.Lawful (c : Context) : Expr → Prop
  | .call _ callee arguments =>
    (arguments = [] ∧ ∃ name scope base fields, callee = .identifier name ∧
      c.shape? name.id = some (.object scope base name.name fields)) ∨
    ∃ r ps, c.shape? callee.node.id = some (.function r ps) ∧
      List.Forall₂ (fun e p => ∃ y, c.nodeType? e.node.id = some y ∧
        c.types.fits p.2 y = true) arguments ps
  | .assign _ target value =>
    ∃ x y, c.nodeType? target.node.id = some x ∧ c.nodeType? value.node.id = some y ∧
      c.types.get x ≠ .void ∧ c.types.get y ≠ .void ∧ c.types.fits x y = true
  | .binary _ op left right =>
    ∃ l r, c.nodeType? left.node.id = some l ∧ c.nodeType? right.node.id = some r ∧
      op.Relates c left right l r
  | .index _ source position =>
    ∃ a i element, c.nodeType? source.node.id = some a ∧ c.nodeType? position.node.id = some i ∧
      c.types.arrayElement? a = some element ∧ (c.types.get i).isInteger = true
  | .literal .. | .identifier _ | .self _ | .super _ | .unary .. | .member .. | .array .. |
    .record .. | .shorthand .. => True

/-- The statement keeps the rule for statements of its kind, in a function with the result `r`. -/
def Stmt.Lawful (c : Context) (r : Slot) : Stmt → Prop
  | .ret _ (some e) => c.types.get r ≠ .void ∧
    ∃ y, c.nodeType? e.node.id = some y ∧ c.types.fits r y = true
  | .ret _ none => c.types.get r = .void
  | .branch _ test _ _ | .loop _ test _ => c.shape? test.node.id = some .boolean
  | .expression .. | .var _ | .block _ => True

/-! ### All parts of a tree -/

namespace Piece

variable {c : Context} {r : Slot}

/-- The rule for expressions or statements, in a function with the result `r`. -/
def Lawful (c : Context) (r : Slot) : Piece → Prop
  | expression e => e.Lawful c
  | statement s => s.Lawful c r
  | _ => True

/-- The piece and all that stands below it are lawful. -/
def Sound (c : Context) (r : Slot) (x : Piece) : Prop :=
  ∀ y ∈ x.walk, y.Lawful c r

lemma sound_iff {x : Piece} : x.Sound c r ↔ x.Lawful c r ∧ ∀ y ∈ x.children, y.Sound c r := by
  rw [Sound, walk_eq, List.forall_mem_cons]
  simp only [List.mem_flatMap, forall_exists_index, and_imp]
  exact and_congr_right' ⟨fun h y hy z hz => h z y hy hz, fun h z y hy hz => h y hy z hz⟩

/-- There are no expressions in a type. -/
lemma sound_typeExpr (t : TypeExpr) : (typeExpr t).Sound c r := by
  have htype : ∀ x : Piece, (∃ t, x = typeExpr t) ∨ (∃ i, x = enumItem i) → x.Sound c r := by
    refine fun x => induction (fun x ih hx => sound_iff.mpr ⟨?_, fun y hy => ih y hy ?_⟩) x
    · rcases hx with ⟨t, rfl⟩ | ⟨i, rfl⟩ <;> trivial
    · rcases hx with ⟨t, rfl⟩ | ⟨i, rfl⟩
      · cases t <;> simp [children] at hy <;> grind
      · simp [children] at hy
        grind
  exact htype _ (.inl ⟨t, rfl⟩)

end Piece

/-- The expression and all its parts are lawful. -/
def Expr.Sound (c : Context) (e : Expr) : Prop :=
  ∀ r, (Piece.expression e).Sound c r

lemma Expr.sound_iff {c : Context} {e : Expr} :
    e.Sound c ↔ e.Lawful c ∧ ∀ d, .expression d ∈ (Piece.expression e).children → d.Sound c := by
  refine ⟨fun h => ⟨(Piece.sound_iff.mp (h 0)).1, fun d hd r => (Piece.sound_iff.mp (h r)).2 _ hd⟩,
    fun ⟨hown, hparts⟩ r => Piece.sound_iff.mpr ⟨hown, fun y hy => ?_⟩⟩
  have hexpr : ∃ d, y = .expression d := by
    cases e <;> simp [Piece.children] at hy <;> grind
  obtain ⟨d, rfl⟩ := hexpr
  exact hparts d hy r

end Sema
