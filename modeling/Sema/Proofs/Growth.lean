import Sema.Proofs.Run
import Sema.Proofs.Slots
import Sema.Typing.Collect
import Sema.Typing.Declaration

/-!
What every step of both walks keeps, whether it ends well or in a fault. Slots are never given
back, a node keeps its slot, the open scopes are those from before, and a scope stays what it was
opened for. A shape that was not in the store before is of a kind `P`: once the declarations are
collected no step makes up a class or an enum, it only copies one that is there.

The second walk is followed once, for any relation between the steps of two walks that is kept when
steps are put together.
-/

namespace Sema

open Sema.Action

variable {P : Shape → Prop}

namespace Context

/-- `c'` is what became of `c`; the shapes that are new in it are of kind `P`. -/
structure Grows (P : Shape → Prop) (c c' : Context) : Prop where
  size_le : c.types.size ≤ c'.types.size
  nodeType : ∀ n x, c.nodeType? n = some x → c'.nodeType? n = some x
  shapes : ∀ x, P (c'.types.get x) ∨ ∃ y, c.types.get y = c'.types.get x
  stack : c'.stack = c.stack
  scope : ∀ id sc, c.scope? id = some sc →
    ∃ sc', c'.scope? id = some sc' ∧ sc'.kind = sc.kind ∧ sc'.node = sc.node

namespace Grows

variable {P : Shape → Prop} {c c1 c2 : Context}

lemma refl (c : Context) : Grows P c c :=
  ⟨le_rfl, fun _ _ h => h, fun x => .inr ⟨x, rfl⟩, rfl, fun _ sc h => ⟨sc, h, rfl, rfl⟩⟩

lemma trans (h1 : Grows P c c1) (h2 : Grows P c1 c2) : Grows P c c2 := by
  refine ⟨h1.size_le.trans h2.size_le, fun n x h => h2.nodeType n x (h1.nodeType n x h), ?_,
    h2.stack.trans h1.stack, ?_⟩
  · intro x
    rcases h2.shapes x with hx | ⟨y, hy⟩
    · exact .inl hx
    · rw [← hy]
      exact h1.shapes y
  · intro id sc h
    obtain ⟨sc1, hs1, hk1, hn1⟩ := h1.scope id sc h
    obtain ⟨sc2, hs2, hk2, hn2⟩ := h2.scope id sc1 hs1
    exact ⟨sc2, hs2, hk2.trans hk1, hn2.trans hn1⟩

instance : Std.Refl (Grows P) := ⟨refl⟩

instance : IsTrans Context (Grows P) := ⟨fun _ _ _ => trans⟩

/-- Only the types of a context changed, and node `n` may be new. -/
lemma of_types {t : TypeStore} {table : Table Slot} (hsize : c.types.size ≤ t.size)
    (htable : ∀ n x, c.nodeTypes.get? n = some x → table.get? n = some x)
    (hshapes : ∀ x, P (t.get x) ∨ ∃ y, c.types.get y = t.get x) :
    Grows P c { c with types := t, nodeTypes := table } :=
  ⟨hsize, htable, hshapes, rfl, fun _ sc h => ⟨sc, h, rfl, rfl⟩⟩

end Grows

end Context

namespace TypeStore

/-- Every shape of the store after a change of one slot is the new one or an old one. -/
lemma get_set_cases (t : TypeStore) (s k : Slot) (shape : Shape) :
    (t.set s shape).get k = shape ∨ (t.set s shape).get k = t.get k := by
  by_cases hk : k = s
  · by_cases hs : s < t.size
    · rw [get_set t s k shape hs, if_pos hk]
      exact .inl rfl
    · rw [set_of_size_le t shape (Nat.le_of_not_lt hs)]
      exact .inr rfl
  · exact .inr (get_set_of_ne t shape hk)

lemma get_assign_cases (t : TypeStore) (target source k : Slot) :
    (t.assign target source).get k = t.get source ∨ (t.assign target source).get k = t.get k := by
  unfold TypeStore.assign
  split
  · exact .inr rfl
  · exact t.get_set_cases target k (t.get source)

end TypeStore

/-! ### Primitive steps -/

namespace Context

variable {P : Shape → Prop} {c : Context} {n : NodeId} {shape : Shape}

lemma grows_alloc (h : P shape) : Grows P c (c.alloc shape).2 := by
  refine Grows.of_types (by simp) (fun _ _ h => h) fun x => ?_
  rw [TypeStore.get_alloc]
  split
  · exact .inl h
  · exact .inr ⟨x, rfl⟩

/-- Storing a copy of what is already there. -/
lemma grows_alloc_copy (y : Slot) : Grows P c (c.alloc (c.types.get y)).2 := by
  refine Grows.of_types (by simp) (fun _ _ h => h) fun x => .inr ?_
  rw [TypeStore.get_alloc]
  split
  · exact ⟨y, rfl⟩
  · exact ⟨x, rfl⟩

lemma grows_assign (target source : Slot) : Grows P c (c.assign target source) := by
  refine Grows.of_types (by simp) (fun _ _ h => h) fun x => .inr ?_
  rcases c.types.get_assign_cases target source x with h | h
  · exact ⟨source, h.symm⟩
  · exact ⟨x, h.symm⟩

lemma grows_allocFor (hn : c.nodeType? n = none)
    (h : P shape ∨ ∃ y, c.types.get y = shape) : Grows P c (c.allocFor n shape).2 := by
  refine Grows.of_types (by simp) ?_ fun x => ?_
  · intro k x hk
    rw [Table.get?_insert, if_neg]
    · exact hk
    · rintro rfl
      rw [nodeType?, hk] at hn
      cases hn
  · rw [TypeStore.get_alloc]
    split
    · exact h
    · exact .inr ⟨x, rfl⟩

lemma grows_slotOf (n : NodeId) : Grows P c (c.slotOf n).2 := by
  unfold slotOf
  split
  · exact .refl c
  · next hn => exact grows_allocFor hn (.inr ⟨c.types.size, c.types.get_eq_unknown le_rfl⟩)

lemma grows_bind (n : NodeId) (source : Slot) : Grows P c (c.bind n source).2 := by
  unfold bind
  split
  · exact grows_assign _ _
  · next hn =>
    refine Grows.of_types le_rfl ?_ fun x => .inr ⟨x, rfl⟩
    intro k x hk
    rw [Table.get?_insert, if_neg]
    · exact hk
    · rintro rfl
      rw [nodeType?, hk] at hn
      cases hn

/-- Changing one slot, whatever it held. -/
lemma grows_set (s : Slot) (h : P shape) : Grows P c { c with types := c.types.set s shape } := by
  refine Grows.of_types (by simp) (fun _ _ h => h) fun x => ?_
  rcases c.types.get_set_cases s x shape with hx | hx
  · left
    rw [hx]
    exact h
  · exact .inr ⟨x, hx.symm⟩

lemma grows_setShape (h : P shape) : Grows P c (c.setShape n shape).2 := by
  unfold setShape
  split
  · exact grows_set _ h
  · next hn => exact grows_allocFor hn (.inl h)

/-- A scope may get symbols and be marked, but stays what it was opened for. -/
lemma grows_modifyScope {id : ScopeId} {f : Scope → Scope}
    (h : ∀ sc, c.scope? id = some sc → (f sc).kind = sc.kind ∧ (f sc).node = sc.node) :
    Grows P c (c.modifyScope id f) := by
  refine ⟨le_rfl, fun _ _ h => h, fun x => .inr ⟨x, rfl⟩, rfl, fun k sc hk => ?_⟩
  by_cases hid : id = k
  · subst hid
    refine ⟨f sc, ?_, h sc hk⟩
    have hk' : c.scopes[id]? = some sc := hk
    simp [scope?, modifyScope, Array.getElem?_modify, hk']
  · refine ⟨sc, ?_, rfl, rfl⟩
    have hk' : c.scopes[k]? = some sc := hk
    simp [scope?, modifyScope, Array.getElem?_modify, hid, hk']

end Context

/-- Everything but a class or an enum may be made up by a step. -/
class AdmitsPlain (P : Shape → Prop) : Prop where
  plain {shape : Shape} (h : shape.nominalName? = none) : P shape

instance : AdmitsPlain fun _ => True := ⟨fun _ => trivial⟩

instance : AdmitsPlain fun shape => shape.nominalName? = none := ⟨id⟩

/-- The relation allows the steps that give types to nodes and do nothing else. Shapes of kind `P`
may be new, among them all that are no class and no enum. -/
class Context.Retypes (P : outParam (Shape → Prop)) (R : Context → Context → Prop) : Prop
    extends Std.Refl R, IsTrans Context R where
  plain {shape : Shape} (h : shape.nominalName? = none) : P shape
  alloc {c : Context} {shape : Shape} (h : P shape) : R c (c.alloc shape).2
  copy {c : Context} (y : Slot) : R c (c.alloc (c.types.get y)).2
  assign {c : Context} (target source : Slot) : R c (c.assign target source)
  slotOf {c : Context} (n : NodeId) : R c (c.slotOf n).2
  bind {c : Context} (n : NodeId) (source : Slot) : R c (c.bind n source).2
  setShape {c : Context} {n : NodeId} {shape : Shape} (h : P shape) : R c (c.setShape n shape).2

/-- The relation also allows to declare names and to change a type in place. -/
class Context.Collects (P : outParam (Shape → Prop)) (R : Context → Context → Prop) : Prop
    extends Context.Retypes P R where
  set {c : Context} {shape : Shape} (s : Slot) (h : P shape) :
    R c { c with types := c.types.set s shape }
  declare {c : Context} {id : ScopeId} {sc sc' : Scope} {symbol : Symbol} {unique : Bool}
    (hid : c.scope? id = some sc) (h : sc.insert? symbol unique = some sc') :
    R c (c.modifyScope id fun _ => sc')

/-- Only the symbols of a scope change when one is added. -/
lemma Scope.insert?_eq {sc sc' : Scope} {symbol : Symbol} {unique : Bool}
    (h : sc.insert? symbol unique = some sc') : ∃ symbols, sc' = { sc with symbols } := by
  unfold Scope.insert? at h
  split at h
  · cases h
    exact ⟨_, rfl⟩
  · split at h
    · cases h
      exact ⟨_, rfl⟩
    · split at h
      · cases h
      · cases h
        exact ⟨_, rfl⟩

instance {P : Shape → Prop} [AdmitsPlain P] : Context.Collects P (Context.Grows P) where
  plain := AdmitsPlain.plain
  alloc := Context.grows_alloc
  copy := Context.grows_alloc_copy
  assign := Context.grows_assign
  slotOf := Context.grows_slotOf
  bind := Context.grows_bind
  setShape := Context.grows_setShape
  set := Context.grows_set
  declare hid h := Context.grows_modifyScope fun sc0 h0 => by
    obtain rfl := Option.some.inj (hid.symm.trans h0)
    obtain ⟨symbols, rfl⟩ := Scope.insert?_eq h
    exact ⟨rfl, rfl⟩

namespace Check

section

variable {P : Shape → Prop} {R : Context → Context → Prop} [hR : Context.Retypes P R]
  {shape : Shape}

include hR

lemma within_types : Within R types :=
  within_map within_get

lemma within_display (s : Slot) : Within R (display s) :=
  within_map within_types

lemma within_alloc (h : P shape) : Within R (alloc shape) :=
  within_modifyGet fun _ => Context.Retypes.alloc h

lemma within_assign (target source : Slot) :
    Within R (assign target source) :=
  within_modify fun _ => Context.Retypes.assign target source

lemma within_slotOf (n : NodeId) : Within R (slotOf n) :=
  within_modifyGet fun _ => Context.Retypes.slotOf n

lemma within_bindNode (n : NodeId) (source : Slot) :
    Within R (bind n source) :=
  within_modifyGet fun _ => Context.Retypes.bind n source

lemma within_setShape {n : NodeId} (h : P shape) :
    Within R (setShape n shape) :=
  within_modifyGet fun _ => Context.Retypes.setShape h

lemma within_allocPlain (h : shape.nominalName? = none) : Within R (alloc shape) :=
  within_alloc (Context.Retypes.plain R h)

lemma within_setPlain {n : NodeId} (h : shape.nominalName? = none) :
    Within R (setShape n shape) :=
  within_setShape (Context.Retypes.plain R h)

omit hR in
lemma within_declare [Context.Collects P R] (name : String) (kind : SymbolKind) (d : NodeId)
    (l : Location) : Within R (declare name kind d l) := by
  refine within_bind within_get fun c => within_get_bind fun c => ?_
  split
  · next id _ =>
    split
    · next sc hsc =>
      obtain ⟨sc0, hid, hinsert⟩ := Option.bind_eq_some_iff.mp hsc
      exact Context.Collects.declare hid hinsert
    · exact Std.Refl.refl c
  · exact Std.Refl.refl c

end

end Check

namespace ScopeMode

variable {P : Shape → Prop} {α : Type} {c c1 c2 : Context} {l : Location} {n : NodeId}
  {kind : ScopeKind} {mode : ScopeMode}

/-- How the scope of a node is entered: not at all, again, or as a new one. -/
lemma outcome_enter (mode : ScopeMode) (kind : ScopeKind) (n : NodeId) (l : Location)
    (c : Context) :
    (mode.enter kind n l).outcome c =
      if mode = skip then (.ok (), c)
      else if mode.mustReopen c kind then
        match c.scopeOf? n with
        | some id => (.ok (), { c with stack := id :: c.stack })
        | none => (.error { cause := .scopeNotFound n, location := l }, c)
      else (.ok (), (c.openScope kind n).2) := by
  cases hre : mode.mustReopen c kind <;> rcases mode with _ | _ | _ <;>
    simp [enter, outcome_bind, hre]
  · simp [mustReopen] at hre
  · rcases hs : c.scopeOf? n with _ | id <;>
      simp [Check.reopenScope, Context.reopenScope?, outcome_bind, outcome_map, Except.map, hs]

/-- Entering a scope adds at most one, without symbols, and leaves the types alone. -/
lemma runs_enter (h : Runs (mode.enter kind n l) c () c1) :
    c1.types = c.types ∧ c1.nodeTypes = c.nodeTypes ∧ ∀ id sc, c1.scope? id = some sc →
      c.scope? id = some sc ∨ sc.symbols = [] ∧ sc.kind = kind ∧ sc.node = n := by
  unfold Runs at h
  rw [outcome_enter] at h
  split at h
  · cases h
    exact ⟨rfl, rfl, fun _ _ h => .inl h⟩
  · split at h
    · split at h
      · cases h
        exact ⟨rfl, rfl, fun _ _ h => .inl h⟩
      · cases h
    · cases h
      refine ⟨rfl, rfl, fun id sc h => ?_⟩
      rw [Context.scope?_openScope] at h
      split at h
      · cases h
        exact .inr ⟨rfl, rfl, rfl⟩
      · exact .inl h

/-- Scopes stay as they are, and the node is the only one that may get another. -/
lemma runs_enter_scopes (h : Runs (mode.enter kind n l) c () c1) :
    (∀ id sc, c.scope? id = some sc → c1.scope? id = some sc) ∧
      (∀ m, m ≠ n → c1.scopeOf? m = c.scopeOf? m) ∧
        ∀ m, (c.scopeOf? m).isSome → (c1.scopeOf? m).isSome := by
  unfold Runs at h
  rw [outcome_enter] at h
  split at h
  · cases h
    exact ⟨fun _ _ h => h, fun _ _ => rfl, fun _ h => h⟩
  · split at h
    · split at h
      · cases h
        exact ⟨fun _ _ h => h, fun _ _ => rfl, fun _ h => h⟩
      · cases h
    · cases h
      have hof : ∀ m, (c.openScope kind n).2.scopeOf? m =
          if m = n then some c.scopes.size else c.scopeOf? m := fun m => Table.get?_insert _ _ _ _
      refine ⟨fun id sc hid => ?_, fun m hm => by rw [hof, if_neg hm], fun m hm => ?_⟩
      · rwa [Context.scope?_openScope, if_neg (Context.scope?_lt hid).ne]
      · rw [hof]
        split
        · rfl
        · exact hm

lemma leave_frame (mode : ScopeMode) (c : Context) :
    (mode.leave c).types = c.types ∧ (mode.leave c).nodeTypes = c.nodeTypes ∧
      (mode.leave c).scopes = c.scopes := by
  cases mode <;> exact ⟨rfl, rfl, rfl⟩

lemma grows_close {id : ScopeId} {scopes : Array Scope} {table : Table ScopeId}
    (hpre : ∀ k sc, c.scope? k = some sc → scopes[k]? = some sc)
    (h : Context.Grows P { c with scopes, stack := id :: c.stack, nodeScopes := table } c2) :
    Context.Grows P c c2.closeScope := by
  refine ⟨h.size_le, h.nodeType, h.shapes, ?_, fun k sc hk => h.scope k sc (hpre k sc hk)⟩
  rw [Context.closeScope, h.stack]
  rfl

/-- What is kept inside a scope is kept around it. -/
lemma grows_leave {u : Unit} (h1 : (mode.enter kind n l).outcome c = (.ok u, c1))
    (h2 : Context.Grows P c1 c2) : Context.Grows P c (mode.leave c2) := by
  rw [outcome_enter] at h1
  split at h1
  · next hskip =>
    subst hskip
    cases h1
    exact h2
  · next hskip =>
    have hleave : mode.leave c2 = c2.closeScope := by
      rcases mode with _ | _ | _
      · rfl
      · rfl
      · exact absurd rfl hskip
    rw [hleave]
    split at h1
    · split at h1
      · cases h1
        exact grows_close (fun _ _ h => h) h2
      · cases h1
    · cases h1
      refine grows_close (fun k sc hk => ?_) h2
      change (c.openScope kind n).2.scope? k = some sc
      rwa [Context.scope?_openScope, if_neg (Context.scope?_lt hk).ne]

lemma enter_fault {f : Fault} (h : (mode.enter kind n l).outcome c = (.error f, c1)) : c1 = c := by
  rw [outcome_enter] at h
  split at h
  · cases h
  · split at h
    · split at h
      · cases h
      · cases h
        rfl
    · cases h

lemma within_inScope {node : Node} {body : Check α} (h : Within (Context.Grows P) body) :
    Within (Context.Grows P) (mode.inScope kind node body) := by
  intro c
  unfold inScope
  rw [outcome_bracket]
  rcases he : (mode.enter kind node.id node.location).outcome c with ⟨f | u, c1⟩
  · rw [enter_fault he]
    exact .refl c
  · exact grows_leave he (h c1)

end ScopeMode

/-! ### Annotations -/

namespace TypeExpr

variable {P : Shape → Prop} {R : Context → Context → Prop} {shape : Shape} {name : String}

lemma builtin?_cases (h : Shape.builtin? name = some shape) :
    shape = .void ∨ shape = .boolean ∨ shape = .string ∨ ∃ n, shape = .number n := by
  unfold Shape.builtin? at h
  split at h
  · exact .inl (Option.some.inj h).symm
  split at h
  · exact .inr (.inl (Option.some.inj h).symm)
  split at h
  · exact .inr (.inr (.inl (Option.some.inj h).symm))
  · obtain ⟨n, -, rfl⟩ := Option.map_eq_some_iff.mp h
    exact .inr (.inr (.inr ⟨n, rfl⟩))

lemma builtin?_plain (h : Shape.builtin? name = some shape) : shape.nominalName? = none := by
  rcases builtin?_cases h with rfl | rfl | rfl | ⟨n, rfl⟩ <;> rfl

lemma builtin?_leaf (h : Shape.builtin? name = some shape) :
    shape.components = [] ∧ shape.isPlaceholder = false := by
  rcases builtin?_cases h with rfl | rfl | rfl | ⟨n, rfl⟩ <;> exact ⟨rfl, rfl⟩

variable [hR : Context.Retypes P R]

include hR

lemma within_resolveDeclared (tolerance : Tolerance) (node : Node)
    (name : String) (k : Nat) : Within R (resolveDeclared tolerance node name k) := by
  refine within_bind within_get fun c => ?_
  split
  · dsimp only
    split
    · exact within_bind (within_fail _ _) fun _ =>
        within_bind (Check.within_slotOf _) fun _ => Check.within_bindNode _ _
    · exact within_bind (Check.within_slotOf _) fun _ => Check.within_bindNode _ _
  · cases tolerance
    · exact Check.within_slotOf _
    · exact within_fail _ _

mutual

lemma within_resolve (tolerance : Tolerance) :
    ∀ type : TypeExpr, Within R (resolve tolerance type)
  | .named node name arguments => by
    unfold resolve
    split
    · next shape hs =>
      refine Check.within_setPlain ?_
      split at hs
      · exact builtin?_plain hs
      · cases hs
    · split
      · split
        · exact within_bind (within_resolve tolerance _) fun _ =>
            Check.within_setPlain rfl
        · exact within_fail _ _
      · exact within_resolveDeclared _ _ _ _
  | .function node parameters returns => by
    unfold resolve
    refine within_bind (within_resolveAll tolerance parameters) fun _ => ?_
    cases returns with
    | some type =>
      exact within_bind (within_resolve tolerance type) fun _ =>
        Check.within_setPlain rfl
    | none =>
      exact within_bind (Check.within_allocPlain rfl) fun _ => Check.within_setPlain rfl
  | .record node fields => by
    unfold resolve
    exact within_bind (within_resolveFields tolerance fields) fun _ =>
      within_bind within_get fun _ => Check.within_setPlain rfl
  | .inlineEnum node items => by
    unfold resolve
    exact within_bind (within_resolveItems tolerance items) fun _ =>
      within_bind within_get fun _ => Check.within_setPlain rfl

lemma within_resolveAll (tolerance : Tolerance) :
    ∀ types : List TypeExpr, Within R (resolveAll tolerance types)
  | [] => within_pure _
  | type :: rest =>
    within_bind (within_resolve tolerance type) fun _ =>
      within_map (within_resolveAll tolerance rest)

lemma within_resolveFields (tolerance : Tolerance) :
    ∀ fields : List FieldType, Within R (resolveFields tolerance fields)
  | [] => within_pure _
  | ⟨_, _, type⟩ :: rest =>
    within_bind (within_resolve tolerance type) fun _ =>
      within_map (within_resolveFields tolerance rest)

lemma within_resolveItem (tolerance : Tolerance) :
    ∀ item : EnumItem, Within R (resolveItem tolerance item)
  | ⟨_, _, payload⟩ =>
    within_bind (within_resolveAll tolerance payload) fun _ =>
      within_bind within_get fun _ => Check.within_setPlain rfl

lemma within_resolveItems (tolerance : Tolerance) :
    ∀ items : List EnumItem, Within R (resolveItems tolerance items)
  | [] => within_pure _
  | item :: rest =>
    within_bind (within_resolveItem tolerance item) fun _ =>
      within_map (within_resolveItems tolerance rest)

end

lemma within_resolveInto (tolerance : Tolerance)
    (n : NodeId) (type : TypeExpr) : Within R (resolveInto tolerance n type) :=
  within_bind (within_resolve tolerance type) fun _ =>
    within_bind (Check.within_slotOf _) fun _ =>
      within_bind (Check.within_assign _ _) fun _ => within_pure _

end TypeExpr

/-! ### Inference -/

namespace Infer

variable {P : Shape → Prop} {R : Context → Context → Prop} [hR : Context.Retypes P R]

include hR

lemma within_shorthand (node : Node) (item : String) (expected : Slot) :
    Within R (shorthand node item expected) := by
  refine within_bind Check.within_types fun t => ?_
  split
  · split
    · exact within_bind (Check.within_slotOf _) fun _ => Check.within_assign _ _
    · exact within_fail _ _
  · split
    · exact within_bind (Check.within_slotOf _) fun _ => Check.within_assign _ _
    · exact within_fail _ _
  · exact within_fail _ _

mutual

lemma within_expr (expected : Slot) : ∀ e : Expr, Within R (expr expected e)
  | .array node elements => by
    unfold expr
    refine within_bind Check.within_types fun _ => within_bind (Check.within_slotOf _) fun _ =>
      within_bind Check.within_types fun t => ?_
    split
    · exact within_pure _
    · split
      · exact within_fail _ _
      · refine within_bind (within_exprs _ elements) fun _ =>
          within_bind Check.within_types fun _ => ?_
        split
        · exact Check.within_assign _ _
        · exact within_pure _
  | .record node values => by
    unfold expr
    refine within_bind Check.within_types fun t => ?_
    dsimp only
    split
    · exact within_fields _ _ values
    · exact within_fail _ _
  | .shorthand node item =>
    within_bind Check.within_types fun _ => within_shorthand _ _ _
  | .literal node .null =>
    within_bind (Check.within_slotOf _) fun _ => Check.within_assign _ _
  | .binary _ _ left right => by
    unfold expr
    refine within_bind (Check.within_slotOf _) fun l => within_bind (Check.within_slotOf _) fun r =>
      within_bind Check.within_types fun t => ?_
    split
    · exact within_expr _ left
    · exact within_expr _ right
    · exact within_pure _
  | .literal _ (.integer _) | .literal _ (.float _) | .literal _ (.string _)
  | .literal _ (.boolean _) | .identifier _ | .self _ | .super _ | .call .. | .unary ..
  | .member .. | .index .. | .assign .. => within_pure _

lemma within_exprs (expected : Slot) :
    ∀ es : List Expr, Within R (exprs expected es)
  | [] => within_pure _
  | e :: rest => within_bind (within_expr expected e) fun _ => within_exprs expected rest

lemma within_fields (record : Slot) (types : List (String × Slot)) :
    ∀ values : List FieldValue, Within R (fields record types values)
  | [] => within_pure _
  | ⟨node, name, value⟩ :: rest => by
    unfold fields
    dsimp only
    split
    · exact within_bind (within_expr _ value) fun _ => within_fields record types rest
    · exact within_bind (Check.within_display _) fun _ => within_bind (within_fail _ _) fun _ =>
        within_fields record types rest

end

end Infer

lemma within_checkAssignable {R : Context → Context → Prop} [Context.Retypes P R] (target : Slot)
    (value : Expr) (found : Slot) (site : Site) :
    Within R (checkAssignable target value found site) := by
  refine within_bind Check.within_types fun t => ?_
  dsimp only
  refine within_guard (Infer.within_expr _ _) (within_bind Check.within_types fun t => ?_)
  split
  · exact within_pure _
  · exact within_fail _ _

/-! ### Expressions -/

/-- A relation on contexts, for the state of the second walk. -/
abbrev Resolving.Along (R : Context → Context → Prop) : Resolving → Resolving → Prop :=
  InvImage R Resolving.toContext

instance {R : Context → Context → Prop} [Std.Refl R] : Std.Refl (Resolving.Along R) :=
  ⟨fun s => Std.Refl.refl s.toContext⟩

instance {R : Context → Context → Prop} [IsTrans Context R] :
    IsTrans Resolving (Resolving.Along R) :=
  ⟨fun s1 s2 s3 => IsTrans.trans s1.toContext s2.toContext s3.toContext⟩

abbrev Resolving.Grows (P : Shape → Prop) : Resolving → Resolving → Prop :=
  Resolving.Along (Context.Grows P)

namespace Resolve

section

variable {P : Shape → Prop} {R : Context → Context → Prop} {α : Type}
  {demand : NodeId → Resolve Unit}

lemma within_whileResolving {n : NodeId} {body : Resolve α}
    (h : Within (Resolving.Along R) body) : Within (Resolving.Along R) (whileResolving n body) := by
  intro s
  unfold whileResolving
  rw [outcome_bracket]
  exact h { s with resolving := n :: s.resolving }

variable [hR : Context.Retypes P R]

include hR

lemma within_typeName (e : Expr) : Within R (typeName e) := by
  unfold typeName
  split
  · refine within_bind within_get fun c => ?_
    split
    · exact within_bind (Check.within_slotOf _) fun _ => within_map (Check.within_bindNode _ _)
    · exact within_pure _
  · exact within_pure _

lemma within_enclosingClass (keyword : String) (l : Location) :
    Within R (enclosingClass keyword l) := by
  refine within_bind within_get fun c => ?_
  split
  · exact within_pure _
  · exact within_fail _ _

lemma within_selfRule (node : Node) : Within R (selfRule node) :=
  within_bind (within_enclosingClass _ _) fun _ => within_bind (Check.within_slotOf _) fun _ =>
    Check.within_bindNode _ _

lemma within_superRule (node : Node) : Within R (superRule node) := by
  refine within_bind (within_enclosingClass _ _) fun _ =>
    within_bind (Check.within_slotOf _) fun _ => within_bind Check.within_types fun t => ?_
  split
  · exact Check.within_bindNode _ _
  · exact within_bind (Check.within_display _) fun _ => within_fail _ _

lemma within_callParameters (node : Node) (callee : Expr) (k : Nat) (s : Slot) (isType : Bool) :
    Within R (callParameters node callee k s isType) := by
  refine within_bind Check.within_types fun t => ?_
  split
  · exact within_guard (within_fail _ _) (within_pure _)
  · exact within_guard (within_fail _ _) (within_pure _)
  · exact within_fail _ _

lemma within_inferOperands (left right : Expr) (l r : Slot) :
    Within R (inferOperands left right l r) := by
  refine within_bind Check.within_types fun t => ?_
  split
  · exact Infer.within_expr _ _
  · split
    · exact Infer.within_expr _ _
    · exact within_pure _

lemma within_checkOperands (op : BinaryOp) (left right : Expr) (l r lv rv : Slot) :
    Within R (checkOperands op left right l r lv rv) := by
  refine within_bind Check.within_types fun t => ?_
  dsimp only
  split
  · exact within_pure _
  · refine within_guard (within_fail _ _) ?_
    split
    · exact within_fail _ _
    · exact within_pure _

lemma within_copy (n : NodeId) (source : Slot) : Within R (do
    let s ← Check.slotOf n
    Check.assign s source
    return s) :=
  within_bind (Check.within_slotOf _) fun _ =>
    within_bind (Check.within_assign _ _) fun _ => within_pure _

lemma within_isRule (node : Node) (right : Expr)
    (l r : Slot) : Within R (isRule node right l r) :=
  within_bind Check.within_types fun _ =>
    within_guard (within_fail _ _) (Check.within_setPlain rfl)

lemma within_binaryRule (node : Node) (op : BinaryOp)
    (left right : Expr) (l r : Slot) : Within R (binaryRule node op left right l r) := by
  refine within_bind Check.within_types fun t => within_guard (within_fail _ _) ?_
  split
  · exact within_isRule _ _ _ _
  · refine within_bind (within_inferOperands _ _ _ _) fun _ =>
      within_bind (within_checkOperands _ _ _ _ _ _ _) fun _ => ?_
    split
    · exact Check.within_setPlain rfl
    · exact within_copy _ _

lemma within_unaryRule (node : Node) (op : UnaryOp)
    (operand : Expr) (s : Slot) : Within R (unaryRule node op operand s) := by
  refine within_bind Check.within_types fun t => ?_
  cases op
  · exact within_guard (within_fail _ _) (within_copy _ _)
  · exact within_guard (within_fail _ _) (Check.within_setPlain rfl)

lemma within_itemRule (node : Node) (name : Ident) (s : Slot) :
    Within R (itemRule node name s) := by
  refine within_bind Check.within_types fun t => ?_
  split
  · split
    · exact Check.within_bindNode _ _
    · exact within_fail _ _
  · exact within_fail _ _

lemma within_indexRule (node : Node) (array position : Expr) (a p : Slot) :
    Within R (indexRule node array position a p) := by
  refine within_bind Check.within_types fun t => ?_
  split
  · split
    · exact Check.within_slotOf _
    · exact within_fail _ _
  · exact within_guard (within_fail _ _) (Check.within_bindNode _ _)

lemma within_assignRule (node : Node) (value : Expr) (target v : Slot) :
    Within R (assignRule node value target v) :=
  within_bind Check.within_types fun _ => within_guard (within_fail _ _)
    (within_bind (within_checkAssignable _ _ _ _) fun _ => Check.within_bindNode _ _)

lemma within_checkElements (anchor : Slot) :
    ∀ (i : Nat) (es : List (Expr × Slot)), Within R (checkElements anchor i es)
  | _, [] => within_pure _
  | i, (e, s) :: rest => by
    have hrest := within_checkElements anchor (i + 1) rest
    refine within_bind Check.within_types fun t => ?_
    dsimp only
    split
    · exact within_bind (Infer.within_expr _ _) fun _ => hrest
    · exact within_guard (within_fail _ _) hrest

/-- The type of the elements is a copy of the type of the anchor. -/
lemma within_arrayRule (node : Node)
    (elements : List Expr) (slots : List Slot) : Within R (arrayRule node elements slots) := by
  refine within_bind Check.within_types fun t => ?_
  have hset : ∀ element, Within R
      (Check.setShape node.id (.generic Shape.arrayName [element])) :=
    fun _ => Check.within_setPlain rfl
  split
  · refine within_bind (within_checkElements _ _ _) fun _ => within_get_bind fun c => ?_
    exact IsTrans.trans _ _ _ (Context.Retypes.copy _) (hset _ _)
  · exact within_bind (Check.within_allocPlain rfl) fun _ => hset _

end

/-- A relation between the steps of two walks that is kept when steps are put together. The walks do
the same to the context, and may differ in how they answer demands. -/
structure Uniform (W : ∀ α : Type, Resolve α → Resolve α → Prop) : Prop where
  pure {α : Type} (a : α) : W α (Pure.pure a) (Pure.pure a)
  fail {α : Type} (cause : Cause) (l : Location) : W α (Sema.fail cause l) (Sema.fail cause l)
  bind {α β : Type} {x y : Resolve α} {f g : α → Resolve β} (hxy : W α x y)
    (hfg : ∀ a, W β (f a) (g a)) : W β (x >>= f) (y >>= g)
  get {α : Type} {f g : Resolving → Resolve α}
    (hfg : ∀ s t, t.toContext = s.toContext → W α (f s) (g t)) :
    W α (MonadState.get >>= f) (MonadState.get >>= g)
  check {α : Type} {x : Check α}
    (hx : ∀ {P : Shape → Prop} {R : Context → Context → Prop} [Context.Retypes P R], Within R x) :
    W α (ofCheck x) (ofCheck x)

section

variable {W : ∀ α : Type, Resolve α → Resolve α → Prop} {α β : Type} {x y : Resolve α}
  {plan : Plan} {demand demand' : NodeId → Resolve Unit}

lemma Uniform.map (hW : Uniform W) {f : α → β} (hxy : W α x y) : W β (f <$> x) (f <$> y) := by
  rw [map_eq_pure_bind, map_eq_pure_bind]
  exact hW.bind hxy fun a => hW.pure (f a)

lemma Uniform.refuse (hW : Uniform W) {p : Prop} [Decidable p] {cause : Cause} {l : Location}
    (hxy : W α x y) : W α (if p then (Sema.fail cause l : Resolve PUnit) >>= fun _ => x else x)
      (if p then (Sema.fail cause l : Resolve PUnit) >>= fun _ => y else y) := by
  split
  · exact hW.bind (hW.fail _ _) fun _ => hxy
  · exact hxy

lemma uniform_operandOrType (hW : Uniform W) (e : Expr) {x y : Resolve Slot} (hxy : W Slot x y) :
    W _ (operandOrType e x) (operandOrType e y) := by
  refine hW.bind (hW.check (within_typeName e)) fun t => ?_
  split
  · exact hW.pure _
  · exact hW.map hxy

lemma uniform_identifier (hW : Uniform W) (hd : ∀ n, W Unit (demand n) (demand' n))
    (name : Ident) : W Slot (identifier demand name) (identifier demand' name) := by
  refine hW.get fun s t hst => ?_
  rw [hst]
  split
  · exact hW.bind (hd _) fun _ => hW.bind (hW.check (Check.within_slotOf _)) fun _ =>
      hW.check (Check.within_bindNode _ _)
  · exact hW.fail _ _

lemma uniform_memberRule (hW : Uniform W) (hd : ∀ n, W Unit (demand n) (demand' n)) (node : Node)
    (object : Expr) (name : Ident) (a : Slot) :
    W Slot (memberRule plan demand node object name a)
      (memberRule plan demand' node object name a) := by
  refine hW.get fun s t hst => ?_
  rw [hst]
  dsimp only
  split
  · split
    · exact hW.fail _ _
    · split
      · exact hW.bind (hd _) fun _ => hW.check (Check.within_bindNode _ _)
      · exact hW.bind (hW.pure _) fun _ => hW.check (Check.within_bindNode _ _)
  · split
    · exact hW.check (Check.within_slotOf _)
    · exact hW.fail _ _

mutual

/-- **The relation holds of the two ways to resolve an expression** if it holds of the two ways to
answer a demand. -/
lemma uniform_expr (hW : Uniform W) (hd : ∀ n, W Unit (demand n) (demand' n)) :
    ∀ e : Expr, W Slot (expr plan demand e) (expr plan demand' e)
  | .literal _ value => by
    refine hW.check (Check.within_setPlain ?_)
    cases value <;> rfl
  | .identifier name => uniform_identifier hW hd name
  | .self node => hW.check (within_selfRule node)
  | .super node => hW.check (within_superRule node)
  | .call node callee arguments => by
    unfold expr
    refine hW.bind (uniform_operandOrType hW _ (uniform_expr hW hd callee)) fun _ =>
      hW.bind (hW.check (within_callParameters _ _ _ _ _)) fun ps => ?_
    cases ps with
    | none => exact hW.check (Check.within_bindNode _ _)
    | some parameters =>
      refine hW.bind (uniform_callArguments hW hd _ _ arguments parameters) fun _ =>
        hW.get fun s t hst => ?_
      rw [hst]
      exact hW.check (Check.within_bindNode _ _)
  | .binary node op left right => by
    unfold expr
    refine hW.bind (uniform_expr hW hd left) fun _ => ?_
    dsimp only
    split
    · exact hW.bind (hW.map (uniform_operandOrType hW _ (uniform_expr hW hd right))) fun _ =>
        hW.check (within_binaryRule _ _ _ _ _ _)
    · exact hW.bind (uniform_expr hW hd right) fun _ => hW.check (within_binaryRule _ _ _ _ _ _)
  | .unary node op operand =>
    hW.bind (uniform_expr hW hd operand) fun _ => hW.check (within_unaryRule _ _ _ _)
  | .member node object name => by
    unfold expr
    refine hW.bind (uniform_operandOrType hW _ (uniform_expr hW hd object)) fun a => ?_
    dsimp only
    split
    · exact hW.check (within_itemRule _ _ _)
    · exact uniform_memberRule hW hd _ _ _ _
  | .index node array position =>
    hW.bind (uniform_expr hW hd array) fun _ => hW.bind (uniform_expr hW hd position) fun _ =>
      hW.check (within_indexRule _ _ _ _ _)
  | .assign node target value =>
    hW.refuse (hW.bind (uniform_expr hW hd target) fun _ =>
      hW.bind (uniform_expr hW hd value) fun _ => hW.check (within_assignRule _ _ _ _))
  | .array node elements =>
    hW.bind (uniform_exprs hW hd elements) fun _ => hW.check (within_arrayRule _ _ _)
  | .record node fields => by
    unfold expr
    refine hW.bind (uniform_fieldValues hW hd fields) fun _ => hW.get fun s t hst => ?_
    rw [hst]
    exact hW.check (Check.within_setPlain rfl)
  | .shorthand node _ => hW.check (Check.within_setPlain rfl)

lemma uniform_exprs (hW : Uniform W) (hd : ∀ n, W Unit (demand n) (demand' n)) :
    ∀ es : List Expr, W _ (exprs plan demand es) (exprs plan demand' es)
  | [] => hW.pure _
  | e :: rest => hW.bind (uniform_expr hW hd e) fun _ => hW.map (uniform_exprs hW hd rest)

lemma uniform_fieldValues (hW : Uniform W) (hd : ∀ n, W Unit (demand n) (demand' n)) :
    ∀ values : List FieldValue,
      W _ (fieldValues plan demand values) (fieldValues plan demand' values)
  | [] => hW.pure _
  | ⟨_, _, value⟩ :: rest =>
    hW.bind (uniform_expr hW hd value) fun _ => hW.map (uniform_fieldValues hW hd rest)

lemma uniform_callArguments (hW : Uniform W) (hd : ∀ n, W Unit (demand n) (demand' n))
    (callee : String) : ∀ (i : Nat) (arguments : List Expr) (parameters : List (String × Slot)),
      W Unit (callArguments plan demand callee i arguments parameters)
        (callArguments plan demand' callee i arguments parameters)
  | _, [], _ => hW.pure _
  | _, _ :: _, [] => hW.pure _
  | i, argument :: arguments, (_, _) :: parameters =>
    hW.bind (uniform_expr hW hd argument) fun _ =>
      hW.bind (hW.check (within_checkAssignable _ _ _ _)) fun _ =>
        uniform_callArguments hW hd callee (i + 1) arguments parameters

end

end

section

variable {P : Shape → Prop} {R : Context → Context → Prop} {demand : NodeId → Resolve Unit}
  [hR : Context.Retypes P R]

include hR

lemma uniform_within : Uniform fun _ x _ => Within (Resolving.Along R) x where
  pure _ := within_pure _
  fail _ _ := within_fail _ _
  bind := within_bind
  get hfg := within_bind within_get fun s => hfg s s rfl
  check hx := within_ofCheck hx

lemma within_operandOrType (e : Expr) {asValue : Resolve Slot}
    (h : Within (Resolving.Along R) asValue) :
    Within (Resolving.Along R) (operandOrType e asValue) :=
  uniform_operandOrType uniform_within e (y := asValue) h

lemma within_memberRule (plan : Plan) (hd : ∀ n, Within (Resolving.Along R) (demand n))
    (node : Node) (object : Expr) (name : Ident) (s : Slot) :
    Within (Resolving.Along R) (memberRule plan demand node object name s) :=
  @uniform_memberRule _ plan demand demand uniform_within hd node object name s

lemma within_expr (plan : Plan) (hd : ∀ n, Within (Resolving.Along R) (demand n)) (e : Expr) :
    Within (Resolving.Along R) (expr plan demand e) :=
  @uniform_expr _ plan demand demand uniform_within hd e

/-! ### Variables and statements -/

lemma within_variableType (plan : Plan)
    (hd : ∀ n, Within (Resolving.Along R) (demand n)) (v : VariableDecl) :
    Within (Resolving.Along R) (variableType plan demand v) := by
  refine within_bind (within_ofCheck (Check.within_slotOf _)) fun s => ?_
  split
  · refine within_bind (within_ofCheck (TypeExpr.within_resolve _ _)) fun _ =>
      within_bind (within_ofCheck (Check.within_assign _ _)) fun _ => ?_
    split
    · exact within_bind (within_expr plan hd _) fun _ =>
        within_ofCheck (within_checkAssignable _ _ _ _)
    · exact within_pure _
  · exact within_bind (within_expr plan hd _) fun _ => within_bind within_get fun _ =>
      within_guard (within_fail _ _) (within_ofCheck (Check.within_assign _ _))
  · exact within_fail _ _

omit hR in
lemma within_variableDecl [Context.Collects P R] (plan : Plan)
    (hd : ∀ n, Within (Resolving.Along R) (demand n)) (v : VariableDecl) :
    Within (Resolving.Along R) (variableDecl plan demand v) := by
  have htaken : Within (Resolving.Along R) (isTaken v.id) := within_map within_get
  refine within_bind htaken fun taken => ?_
  split
  · exact within_pure _
  · refine within_bind (within_whileResolving (within_variableType plan hd v)) fun _ =>
      within_bind (within_modify fun s => Std.Refl.refl s.toContext) fun _ =>
        within_bind within_get fun _ => ?_
    split
    · exact within_ofCheck (Check.within_declare _ _ _ _)
    · exact within_pure _

end

variable {P : Shape → Prop} {α : Type}

lemma within_inScope {mode : ScopeMode} {kind : ScopeKind} {node : Node} {body : Resolve α}
    (h : Within (Resolving.Grows P) body) :
    Within (Resolving.Grows P) (inScope mode kind node body) := by
  intro s
  unfold inScope
  rw [outcome_bracket, outcome_ofCheck]
  rcases he : (mode.enter kind node.id node.location).outcome s.toContext with ⟨f | u, c1⟩
  · simp only
    rw [ScopeMode.enter_fault he]
    exact Context.Grows.refl s.toContext
  · exact ScopeMode.grows_leave he (h { s with toContext := c1 })

lemma within_withStack {stack : List ScopeId} {body : Resolve α}
    (h : Within (Resolving.Grows P) body) :
    Within (Resolving.Grows P) (withStack stack body) := by
  refine within_get_bind fun s => ?_
  rw [outcome_bracket]
  have hb := h { s with stack }
  exact ⟨hb.size_le, hb.nodeType, hb.shapes, rfl, hb.scope⟩

lemma within_demandWithin [AdmitsPlain P] (plan : Plan) : ∀ (depth : Nat) (n : NodeId),
    Within (Resolving.Grows P) (demandWithin plan depth n)
  | 0, _ => within_pure _
  | depth + 1, n => by
    have htaken : Within (Resolving.Grows P) (isTaken n) := within_map within_get
    unfold demandWithin
    split
    · exact within_pure _
    · refine within_bind htaken fun taken => ?_
      split
      · exact within_pure _
      · refine within_bind within_get fun _ => ?_
        split
        · exact within_pure _
        · exact within_withStack (within_within
            (within_variableDecl plan (within_demandWithin plan depth) _))

lemma within_demand [AdmitsPlain P] (plan : Plan) (n : NodeId) :
    Within (Resolving.Grows P) (demand plan n) :=
  within_demandWithin plan plan.size n

/-- The relation is also kept by what the walks do between the expressions. -/
structure Rules.Uniform (W : ∀ α : Type, Resolve α → Resolve α → Prop) (r r' : Rules) : Prop
    extends Resolve.Uniform W where
  value (e : Expr) : W Slot (r.value e) (r'.value e)
  declare (v : VariableDecl) : W Unit (r.declare v) (r'.declare v)
  mark (id : ScopeId) : W Unit
    (modify fun s => { s with toContext := s.toContext.markReturn id })
    (modify fun s => { s with toContext := s.toContext.markReturn id })
  within {α : Type} {name : String} {x y : Resolve α} (hxy : W α x y) :
    W α (x.within name) (y.within name)
  inScope {α : Type} {mode : ScopeMode} {kind : ScopeKind} {node : Node} {x y : Resolve α}
    (hxy : W α x y) : W α (Resolve.inScope mode kind node x) (Resolve.inScope mode kind node y)

section

variable {W : ∀ α : Type, Resolve α → Resolve α → Prop} {r r' : Rules} {mode : ScopeMode}

lemma within_enclosingResult {R : Context → Context → Prop} [Std.Refl R] [IsTrans Context R]
    (l : Location) : Within R (enclosingResult l) := by
  refine within_bind within_get fun c => ?_
  split
  · exact within_fail _ _
  · split
    · exact within_pure _
    · exact within_fail _ _

lemma within_checkReturns {R : Context → Context → Prop} [Std.Refl R] [IsTrans Context R]
    (f : FunctionDecl) (scope : Option ScopeId) : Within R (checkReturns f scope) := by
  refine within_bind within_get fun c => ?_
  split
  · split
    · exact within_pure _
    · refine within_guard (within_fail _ _) ?_
      split
      · exact within_fail _ _
      · exact within_pure _
  · exact within_pure _

lemma uniform_returnRule (hr : r.Uniform W r') (node : Node) (value : Option Expr) :
    W Unit (returnRule r node value) (returnRule r' node value) := by
  refine hr.bind (hr.check (within_enclosingResult _)) fun x => hr.get fun s t hst => ?_
  rw [hst]
  dsimp only
  split
  · exact hr.bind (hr.fail _ _) fun _ => hr.mark _
  · exact hr.bind (hr.value _) fun _ =>
      hr.bind (hr.check (within_checkAssignable _ _ _ _)) fun _ => hr.mark _
  · exact hr.bind (hr.fail _ _) fun _ => hr.mark _
  · exact hr.mark _

lemma uniform_condition (hr : r.Uniform W r') (e : Expr) :
    W Unit (condition r e) (condition r' e) := by
  refine hr.bind (hr.value e) fun _ => hr.get fun s t hst => ?_
  rw [hst]
  dsimp only
  split
  · exact hr.pure _
  · exact hr.fail _ _

lemma uniform_typeVoid (hr : r.Uniform W r') (node : Node) :
    W Unit (typeVoid node) (typeVoid node) :=
  hr.check (within_map (Check.within_setPlain rfl))

mutual

lemma uniform_stmt (hr : r.Uniform W r') : ∀ s : Stmt, W Unit (stmt mode r s) (stmt mode r' s)
  | .expression node value => hr.bind (hr.value value) fun _ => uniform_typeVoid hr node
  | .var v => hr.bind (hr.within (hr.declare v)) fun _ => uniform_typeVoid hr v.toNode
  | .ret node value =>
    hr.bind (uniform_returnRule hr node value) fun _ => uniform_typeVoid hr node
  | .branch node test yes no => by
    unfold stmt
    refine hr.bind (uniform_condition hr test) fun _ => hr.bind (uniform_block hr yes) fun _ => ?_
    cases no with
    | none => exact uniform_typeVoid hr node
    | some other => exact hr.bind (uniform_block hr other) fun _ => uniform_typeVoid hr node
  | .loop node test body =>
    hr.bind (uniform_condition hr test) fun _ => hr.bind (uniform_block hr body) fun _ =>
      uniform_typeVoid hr node
  | .block b => hr.bind (uniform_block hr b) fun _ => uniform_typeVoid hr b.toNode

lemma uniform_stmts (hr : r.Uniform W r') :
    ∀ ss : List Stmt, W Unit (stmts mode r ss) (stmts mode r' ss)
  | [] => hr.pure _
  | s :: rest => hr.bind (uniform_stmt hr s) fun _ => uniform_stmts hr rest

lemma uniform_block (hr : r.Uniform W r') :
    ∀ b : Block, W Unit (block mode r b) (block mode r' b)
  | ⟨node, statements⟩ =>
    hr.bind (hr.inScope (uniform_stmts hr statements)) fun _ => uniform_typeVoid hr node

end

lemma uniform_function (hr : r.Uniform W r') (f : FunctionDecl) :
    W Unit (function mode r f) (function mode r' f) := by
  refine hr.inScope (hr.get fun s t hst => ?_)
  rw [hst]
  exact hr.bind (uniform_block hr f.body) fun _ => hr.check (within_checkReturns _ _)

mutual

lemma uniform_decl (hr : r.Uniform W r') : ∀ d : Decl, W Unit (decl mode r d) (decl mode r' d)
  | .object c => hr.within (uniform_object hr c)
  | .function f => hr.within (uniform_function hr f)
  | .var v => hr.within (hr.declare v)
  | .enum _ | .foreign _ => hr.pure _

lemma uniform_object (hr : r.Uniform W r') :
    ∀ c : ClassDecl, W Unit (object mode r c) (object mode r' c)
  | ⟨_, _, _, members⟩ => hr.inScope (uniform_decls hr members)

lemma uniform_decls (hr : r.Uniform W r') :
    ∀ ds : List Decl, W Unit (decls mode r ds) (decls mode r' ds)
  | [] => hr.pure _
  | d :: rest => hr.bind (uniform_decl hr d) fun _ => uniform_decls hr rest

end

end

section

variable [AdmitsPlain P] (mode : ScopeMode) (plan : Plan)

lemma uniform_grows : (plan : Rules).Uniform (fun _ x _ => Within (Resolving.Grows P) x) plan where
  toUniform := uniform_within
  value e := within_expr plan (within_demand plan) e
  declare v := within_variableDecl plan (within_demand plan) v
  mark _ := within_modify fun _ => Context.grows_modifyScope fun _ _ => ⟨rfl, rfl⟩
  within := within_within
  inScope := within_inScope

lemma within_returnRule (node : Node) (value : Option Expr) :
    Within (Resolving.Grows P) (returnRule plan node value) :=
  uniform_returnRule (uniform_grows plan) node value

lemma within_condition (e : Expr) : Within (Resolving.Grows P) (condition plan e) :=
  uniform_condition (uniform_grows plan) e

lemma within_stmt (s : Stmt) : Within (Resolving.Grows P) (stmt mode plan s) :=
  uniform_stmt (uniform_grows plan) s

lemma within_block (b : Block) : Within (Resolving.Grows P) (block mode plan b) :=
  uniform_block (uniform_grows plan) b

lemma within_decl (d : Decl) : Within (Resolving.Grows P) (decl mode plan d) :=
  uniform_decl (uniform_grows plan) d

lemma within_decls (ds : List Decl) : Within (Resolving.Grows P) (decls mode plan ds) :=
  uniform_decls (uniform_grows plan) ds

end

/-! ### Declarations -/

lemma within_baseSignature [AdmitsPlain P] (base : Option TypeExpr) :
    Within (Context.Grows P) (baseSignature base) := by
  cases base with
  | none => exact within_pure _
  | some type =>
    refine within_bind (TypeExpr.within_resolve _ _) fun _ =>
      within_bind Check.within_types fun _ => ?_
    split
    · exact within_fail _ _
    · exact within_pure _

lemma within_parameterSignatures [AdmitsPlain P] :
    ∀ ps : List Parameter, Within (Context.Grows P) (parameterSignatures ps)
  | [] => within_pure _
  | _ :: rest => within_bind (TypeExpr.within_resolveInto _ _ _) fun _ =>
      within_parameterSignatures rest

lemma within_functionSignature [AdmitsPlain P] (mode : ScopeMode) (f : FunctionDecl) :
    Within (Context.Grows P) (functionSignature mode f) := by
  refine ScopeMode.within_inScope (within_bind (within_parameterSignatures _) fun _ => ?_)
  split
  · exact within_map (TypeExpr.within_resolve _ _)
  · exact within_pure _

lemma within_variableSignature [AdmitsPlain P] (v : VariableDecl) :
    Within (Context.Grows P) (variableSignature v) := by
  unfold variableSignature
  split
  · exact within_map (TypeExpr.within_resolveInto _ _ _)
  · exact within_pure _

lemma within_enumSignature [AdmitsPlain P] (mode : ScopeMode) (e : EnumDecl) :
    Within (Context.Grows P) (enumSignature mode e) :=
  ScopeMode.within_inScope (within_map (TypeExpr.within_resolveItems _ _))

mutual

lemma within_signature [AdmitsPlain P] (mode : ScopeMode) :
    ∀ d : Decl, Within (Context.Grows P) (signature mode d)
  | .object c => within_within (within_classSignature mode c)
  | .function f => within_within (within_functionSignature mode f)
  | .var v => within_within (within_variableSignature v)
  | .enum e => within_within (within_enumSignature mode e)
  | .foreign _ => within_pure _

lemma within_classSignature [AdmitsPlain P] (mode : ScopeMode) :
    ∀ c : ClassDecl, Within (Context.Grows P) (classSignature mode c)
  | ⟨_, _, base, members⟩ =>
    ScopeMode.within_inScope (within_bind (within_baseSignature base) fun _ =>
      within_signatures mode members)

lemma within_signatures [AdmitsPlain P] (mode : ScopeMode) :
    ∀ ds : List Decl, Within (Context.Grows P) (signatures mode ds)
  | [] => within_pure _
  | d :: rest => within_bind (within_signature mode d) fun _ => within_signatures mode rest

end

mutual

lemma within_hierarchy [AdmitsPlain P] : ∀ d : Decl, Within (Context.Grows P) (hierarchy d)
  | .object c => within_classHierarchy c
  | .function _ | .var _ | .enum _ | .foreign _ => within_pure _

lemma within_classHierarchy [AdmitsPlain P] :
    ∀ c : ClassDecl, Within (Context.Grows P) (classHierarchy c)
  | ⟨_, _, _, members⟩ =>
    within_bind (Check.within_slotOf _) fun _ => within_bind Check.within_types fun _ =>
      within_guard (within_fail _ _) (within_hierarchies members)

lemma within_hierarchies [AdmitsPlain P] :
    ∀ ds : List Decl, Within (Context.Grows P) (hierarchies ds)
  | [] => within_pure _
  | d :: rest => within_bind (within_hierarchy d) fun _ => within_hierarchies rest

end

end Resolve

namespace Plan

variable {P : Shape → Prop}

mutual

lemma within_addDecl [AdmitsPlain P] (p : Plan) (owner : NodeId) :
    ∀ d : Decl, Within (Context.Grows P) (addDecl p owner d)
  | .var v => within_map (Check.within_slotOf v.id)
  | .object c => within_addClass p c
  | .function _ | .enum _ | .foreign _ => within_pure _

lemma within_addClass [AdmitsPlain P] (p : Plan) :
    ∀ c : ClassDecl, Within (Context.Grows P) (addClass p c)
  | ⟨node, _, _, members⟩ => within_addDecls p node.id members

lemma within_addDecls [AdmitsPlain P] (p : Plan) (owner : NodeId) :
    ∀ ds : List Decl, Within (Context.Grows P) (addDecls p owner ds)
  | [] => within_pure _
  | d :: rest => within_bind (within_addDecl p owner d) fun p' => within_addDecls p' owner rest

end

end Plan

/-- **The second walk** makes up no class and no enum. -/
lemma Resolve.within_program [AdmitsPlain P] (mode : ScopeMode)
    (p : Program) : Within (Context.Grows P) (Resolve.program mode p) :=
  within_bind (Plan.within_addDecls _ _ _) fun plan =>
    within_toCheck (within_inScope (within_bind (within_ofCheck (within_signatures mode _))
      fun _ => within_bind (within_ofCheck (within_hierarchies _)) fun _ =>
        within_decls mode plan _))

/-! ### Collection -/

namespace Collect

section

variable {P : Shape → Prop} {R : Context → Context → Prop} {shape : Shape}

lemma within_parametersFrom [Context.Collects P R] (declared : Bool) (tolerance : Tolerance) :
    ∀ ps : List Parameter, Within R (parametersFrom declared tolerance ps)
  | [] => within_pure _
  | _ :: rest =>
    within_guard (Check.within_declare _ _ _ _)
      (within_bind (TypeExpr.within_resolveInto _ _ _) fun _ =>
        within_map (within_parametersFrom declared tolerance rest))

lemma within_parameters [Context.Collects P R] (tolerance : Tolerance) (ps : List Parameter) :
    Within R (parameters tolerance ps) :=
  within_bind within_get fun _ => within_parametersFrom _ _ _

lemma within_resultType [Context.Retypes P R] (tolerance : Tolerance) (type : Option TypeExpr) :
    Within R (resultType tolerance type) := by
  cases type with
  | some type => exact TypeExpr.within_resolve _ _
  | none => exact Check.within_allocPlain rfl

lemma plain_of_literal {value : Literal} (h : value.shape? = some shape) :
    shape.nominalName? = none ∧ shape.components = [] := by
  cases value <;> cases h <;> exact ⟨rfl, rfl⟩

/-- The first guess at a value is the shape of a literal, or one that is there already. -/
lemma valueShape?_cases {c : Context} {e : Expr} (h : valueShape? c e = some shape) :
    (∃ value : Literal, value.shape? = some shape) ∨ ∃ y, c.types.get y = shape := by
  have hnode : ∀ {o : Option NodeId} {shape}, o.bind c.shape? = some shape →
      ∃ y, c.types.get y = shape := by
    intro o shape ho
    obtain ⟨n, _, hn⟩ := Option.bind_eq_some_iff.mp ho
    obtain ⟨y, _, hy⟩ := Option.map_eq_some_iff.mp hn
    exact ⟨y, hy⟩
  unfold valueShape? at h
  split at h
  · next value => exact .inl ⟨value, h⟩
  · exact .inr (hnode h)
  · right
    unfold callShape? at h
    split at h
    · cases h
      exact ⟨_, rfl⟩
    · split at h
      · next ho =>
        split at h
        · cases h
          exact hnode ho
        · cases h
      · cases h
  · cases h

lemma within_variableDecl [Context.Collects P R] (v : VariableDecl) :
    Within R (variableDecl v) := by
  refine within_bind (Check.within_declare _ _ _ _) fun _ => ?_
  split
  · exact within_map (TypeExpr.within_resolveInto _ _ _)
  · next e _ _ =>
    refine within_get_bind fun c => ?_
    have hguess : R c (c.alloc ((valueShape? c e).getD .unknown)).2 := by
      rcases hv : valueShape? c e with _ | shape
      · exact Check.within_allocPlain rfl c
      · rcases valueShape?_cases hv with ⟨_, h⟩ | ⟨y, rfl⟩
        · exact Check.within_allocPlain (plain_of_literal h).1 c
        · exact Context.Retypes.copy y
    exact IsTrans.trans _ _ _ hguess
      (within_bind (Check.within_slotOf _) (fun _ => Check.within_assign _ _) _)
  · exact within_fail _ _

lemma within_enumItems [Context.Collects P R] :
    ∀ items : List EnumItem, Within R (enumItems items)
  | [] => within_pure _
  | _ :: rest => within_bind (Check.within_declare _ _ _ _) fun _ =>
      within_bind (TypeExpr.within_resolveItem _ _) fun _ => within_map (within_enumItems rest)

lemma within_foreign [Context.Collects P R] (f : ForeignDecl) : Within R (foreign f) := by
  refine within_bind (Check.within_declare _ _ _ _) fun _ =>
    within_bind (within_orElseFault (within_parameters _ _)) fun _ =>
      within_bind (within_orElseFault (within_resultType _ _)) fun _ =>
        within_bind (Check.within_setPlain rfl) fun _ =>
          within_bind Check.within_types fun _ => ?_
  split
  · exact within_throw _
  · exact within_pure _

lemma within_baseType [Context.Retypes P R] (base : Option TypeExpr) :
    Within R (baseType base) := by
  cases base with
  | some type => exact within_map (TypeExpr.within_resolve _ _)
  | none => exact within_pure _

lemma within_addField [Context.Collects (fun _ => True) R] (object : Slot)
    (member : Decl) : Within R (addField object member) := by
  unfold addField
  split
  · exact within_bind (Check.within_slotOf _) fun _ => within_bind Check.within_types fun _ =>
      within_modify fun _ => Context.Collects.set _ trivial
  · exact within_pure _

end

lemma within_function {P : Shape → Prop} [AdmitsPlain P] (mode : ScopeMode) (f : FunctionDecl) :
    Within (Context.Grows P) (function mode f) :=
  within_bind (Check.within_declare _ _ _ _) fun _ => ScopeMode.within_inScope
    (within_bind (within_parameters _ _) fun _ => within_bind (within_resultType _ _)
      fun _ => within_map (Check.within_setPlain rfl))

lemma within_enum (mode : ScopeMode) (e : EnumDecl) :
    Within (Context.Grows fun _ => True) (enum mode e) :=
  within_bind (Check.within_declare _ _ _ _) fun _ => ScopeMode.within_inScope
    (within_bind within_get fun _ => within_bind (within_enumItems _) fun _ =>
      within_map (Check.within_setShape trivial))

mutual

lemma within_decl (mode : ScopeMode) :
    ∀ d : Decl, Within (Context.Grows fun _ => True) (decl mode d)
  | .object c => within_within (within_object mode c)
  | .function f => within_within (within_function mode f)
  | .var v => within_within (within_variableDecl v)
  | .enum e => within_within (within_enum mode e)
  | .foreign f => within_within (within_foreign f)

lemma within_object (mode : ScopeMode) :
    ∀ c : ClassDecl, Within (Context.Grows fun _ => True) (object mode c)
  | ⟨_, _, base, members⟩ =>
    within_bind (Check.within_declare _ _ _ _) fun _ => ScopeMode.within_inScope
      (within_bind within_get fun _ => within_bind (within_baseType base) fun _ =>
        within_bind (Check.within_setShape trivial) fun _ => within_fields mode _ members)

lemma within_fields (mode : ScopeMode) (s : Slot) :
    ∀ ds : List Decl, Within (Context.Grows fun _ => True) (fields mode s ds)
  | [] => within_pure _
  | d :: rest => within_bind (within_decl mode d) fun _ =>
      within_bind (within_addField s d) fun _ => within_fields mode s rest

end

lemma within_decls (mode : ScopeMode) :
    ∀ ds : List Decl, Within (Context.Grows fun _ => True) (decls mode ds)
  | [] => within_pure _
  | d :: rest => within_bind (within_decl mode d) fun _ => within_decls mode rest

end Collect

end Sema
