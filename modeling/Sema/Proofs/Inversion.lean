import Sema.Proofs.Run
import Sema.Proofs.Slots
import Sema.Typing.Declaration

/-!
What each rule does when it ends well: which conditions held, which rules ran before it, and what
it stored.
-/

namespace Sema

open Sema.Action

variable {c c' : Context} {x y : Slot} {symbol : Symbol}

namespace Check

variable {n : NodeId} {shape : Shape}

@[simp] lemma runs_types {t : TypeStore} : Runs types c t c' ↔ c.types = t ∧ c = c' := by
  simp [types, and_comm]

@[simp] lemma runs_alloc : Runs (alloc shape) c x c' ↔ c.alloc shape = (x, c') := by
  simp [alloc]

@[simp] lemma runs_assign {u : Unit} : Runs (assign x y) c u c' ↔ c.assign x y = c' := by
  simp [assign]

@[simp] lemma runs_slotOf : Runs (slotOf n) c x c' ↔ c.slotOf n = (x, c') := by
  simp [slotOf]

@[simp] lemma runs_bindNode : Runs (bind n y) c x c' ↔ c.bind n y = (x, c') := by
  simp [bind]

@[simp] lemma runs_setShape : Runs (setShape n shape) c x c' ↔ c.setShape n shape = (x, c') := by
  simp [setShape]

/-- A declaration adds a symbol to the current scope. -/
lemma runs_declare {name : String} {kind : SymbolKind} {d : NodeId} {l : Location}
    (h : Runs (declare name kind d l) c () c') :
    ∃ id sc sc' unique, c.current? = some id ∧ c.scope? id = some sc ∧
      sc.insert? ⟨name, kind, c.currentOrRoot, d⟩ unique = some sc' ∧
        c' = c.modifyScope id fun _ => sc' := by
  unfold declare addSymbol at h
  simp only [runs_bind, runs_get] at h
  obtain ⟨_, _, ⟨rfl, rfl⟩, _, _, ⟨rfl, rfl⟩, h⟩ := h
  split at h
  · next id hid =>
    split at h
    · next sc' hsc =>
      obtain ⟨sc, hsc, hinsert⟩ := Option.bind_eq_some_iff.mp hsc
      simp only [runs_set] at h
      exact ⟨id, sc, sc', _, hid, hsc, hinsert, h.symm⟩
    · simp at h
  · simp at h

end Check

lemma Scope.mem_replaceSymbol {t : Symbol} : ∀ {symbols : List Symbol},
    t ∈ Scope.replaceSymbol symbol symbols → t ∈ symbols ∨ t = symbol
  | [], h => by cases h
  | s :: rest, h => by
    unfold Scope.replaceSymbol at h
    split at h
    · rcases List.mem_cons.mp h with rfl | h
      · exact .inr rfl
      · exact .inl (List.mem_cons_of_mem _ h)
    · rcases List.mem_cons.mp h with rfl | h
      · exact .inl List.mem_cons_self
      · exact (Scope.mem_replaceSymbol h).imp_left (List.mem_cons_of_mem _)

/-- A scope gets no other symbol than the one that is added, and stays what it was opened for. -/
lemma Scope.insert?_cases {sc sc' : Scope} {unique : Bool}
    (h : sc.insert? symbol unique = some sc') : sc'.kind = sc.kind ∧ sc'.node = sc.node ∧
      ∀ t ∈ sc'.symbols, t ∈ sc.symbols ∨ t = symbol := by
  unfold Scope.insert? at h
  split at h
  · cases h
    exact ⟨rfl, rfl, by simp⟩
  · split at h
    · cases h
      exact ⟨rfl, rfl, fun t ht => .inl ht⟩
    · split at h
      · cases h
      · cases h
        exact ⟨rfl, rfl, fun t ht => Scope.mem_replaceSymbol ht⟩

/-- A declaration that is found is that of a symbol of a scope. -/
lemma Context.exists_of_declarationOf? {name : String} {kind : SymbolKind} {d : NodeId}
    (h : c.declarationOf? name kind = some d) :
    ∃ symbol id sc, c.scope? id = some sc ∧ symbol ∈ sc.symbols ∧ symbol.kind = kind ∧
      symbol.name = name ∧ symbol.declaration = d := by
  obtain ⟨symbol, h, hd⟩ := Option.map_eq_some_iff.mp h
  obtain ⟨id, -, h⟩ := List.exists_of_findSome?_eq_some h
  obtain ⟨sc, hsc, h⟩ := Option.bind_eq_some_iff.mp h
  have hnamed : symbol.isNamed name kind = true :=
    List.find?_some (p := fun symbol : Symbol => symbol.isNamed name kind) h
  obtain ⟨hkind, hname⟩ : symbol.kind = kind ∧ symbol.name = name := by
    simpa [Symbol.isNamed] using hnamed
  exact ⟨symbol, id, sc, hsc, List.mem_of_find?_eq_some h, hkind, hname, hd⟩

/-! ### Annotations -/

namespace TypeExpr

variable {tolerance : Tolerance} {item : EnumItem} {name : Ident} {slots : List Slot} {node : Node}
  {type : TypeExpr}

/-- A declared name is resolved to its declaration; one that is not declared may be left open. -/
lemma runs_resolveDeclared {name : String} {k : Nat} :
    Runs (resolveDeclared tolerance node name k) c x c' ↔
      (∃ d y c1, c.declarationOf? name .type = some d ∧ k = 0 ∧ c.slotOf d = (y, c1) ∧
        c1.bind node.id y = (x, c')) ∨
      (c.declarationOf? name .type = none ∧ tolerance = .lenient ∧ c.slotOf node.id = (x, c')) := by
  unfold resolveDeclared
  rcases hd : c.declarationOf? name .type with _ | d
  · cases tolerance <;> simp [hd]
  · by_cases hk : k = 0 <;> simp [hd, hk]

/-- The three kinds of names: built in, a constructor, declared. -/
lemma runs_resolve_named {arguments : List TypeExpr}
    (h : Runs (resolve tolerance (.named node name arguments)) c x c') :
    (∃ shape, arguments = [] ∧ Shape.builtin? name.name = some shape ∧
      c.setShape node.id shape = (x, c')) ∨
    (∃ argument y c1, arguments = [argument] ∧ isConstructor name.name = true ∧
      Runs (resolve tolerance argument) c y c1 ∧
        c1.setShape node.id (.generic name.name [y]) = (x, c')) ∨
    (isConstructor name.name = false ∧
      (arguments = [] → Shape.builtin? name.name = none) ∧
      Runs (resolveDeclared tolerance node name.name arguments.length) c x c') := by
  unfold resolve at h
  split at h
  · next shape hs =>
    split at hs
    · next he => exact .inl ⟨shape, by simpa using he, hs, by simpa using h⟩
    · cases hs
  · next hs =>
    split at h
    · next hk =>
      split at h
      · simp only [runs_bind, Check.runs_setShape] at h
        obtain ⟨y, c1, hy, hset⟩ := h
        exact .inr (.inl ⟨_, y, c1, rfl, hk, hy, hset⟩)
      · simp at h
    · next hk =>
      refine .inr (.inr ⟨by simpa using hk, ?_, h⟩)
      rintro rfl
      simpa using hs

lemma runs_resolve_function {parameters : List TypeExpr} {returns : Option TypeExpr}
    (h : Runs (resolve tolerance (.function node parameters returns)) c x c') :
    ∃ slots result c1 c2, Runs (resolveAll tolerance parameters) c slots c1 ∧
      (match returns with
        | some type => Runs (resolve tolerance type) c1 result c2
        | none => c1.alloc .void = (result, c2)) ∧
      c2.setShape node.id
        (.function result (slots.zipIdx.map fun (s, i) => (toString i, s))) = (x, c') := by
  unfold resolve at h
  cases returns with
  | none =>
    simp only [runs_bind, Check.runs_setShape, Check.runs_alloc] at h
    obtain ⟨slots, c1, hslots, result, c2, hr, hset⟩ := h
    exact ⟨slots, result, c1, c2, hslots, hr, hset⟩
  | some type =>
    simp only [runs_bind, Check.runs_setShape] at h
    obtain ⟨slots, c1, hslots, result, c2, hr, hset⟩ := h
    exact ⟨slots, result, c1, c2, hslots, hr, hset⟩

lemma runs_resolve_record {fields : List FieldType} :
    Runs (resolve tolerance (.record node fields)) c x c' ↔
      ∃ slots c1, Runs (resolveFields tolerance fields) c slots c1 ∧
        c1.setShape node.id (.record c1.currentOrRoot slots) = (x, c') := by
  simp [resolve]

lemma runs_resolve_inlineEnum {items : List EnumItem} :
    Runs (resolve tolerance (.inlineEnum node items)) c x c' ↔
      ∃ slots c1, Runs (resolveItems tolerance items) c slots c1 ∧
        c1.setShape node.id (.inlineEnum c1.currentOrRoot slots) = (x, c') := by
  simp [resolve]

lemma runs_resolveAll_cons {rest : List TypeExpr} :
    Runs (resolveAll tolerance (type :: rest)) c slots c' ↔
      ∃ x c1 xs, Runs (resolve tolerance type) c x c1 ∧ Runs (resolveAll tolerance rest) c1 xs c' ∧
        x :: xs = slots := by
  simp [resolveAll]

lemma runs_resolveFields_cons {rest : List FieldType} {slots : List (String × Slot)} :
    Runs (resolveFields tolerance (⟨node, name, type⟩ :: rest)) c slots c' ↔
      ∃ x c1 xs, Runs (resolve tolerance type) c x c1 ∧
        Runs (resolveFields tolerance rest) c1 xs c' ∧ (name.name, x) :: xs = slots := by
  simp [resolveFields]

lemma runs_resolveItem {payload : List TypeExpr} :
    Runs (resolveItem tolerance ⟨node, name, payload⟩) c x c' ↔
      ∃ slots c1, Runs (resolveAll tolerance payload) c slots c1 ∧
        c1.setShape node.id (.enumItem c1.currentOrRoot name.name slots) = (x, c') := by
  simp [resolveItem]

lemma runs_resolveItems_cons {rest : List EnumItem} :
    Runs (resolveItems tolerance (item :: rest)) c slots c' ↔
      ∃ x c1 xs, Runs (resolveItem tolerance item) c x c1 ∧
        Runs (resolveItems tolerance rest) c1 xs c' ∧ x :: xs = slots := by
  simp [resolveItems]

lemma runs_resolveInto {n : NodeId} : Runs (resolveInto tolerance n type) c x c' ↔
      ∃ y c1 c2, Runs (resolve tolerance type) c y c1 ∧ c1.slotOf n = (x, c2) ∧
        c2.assign x y = c' := by
  simp only [resolveInto, runs_bind, Check.runs_slotOf, Check.runs_assign, runs_pure]
  constructor
  · rintro ⟨y, c1, hy, s, c2, hs, _, _, rfl, rfl, rfl⟩
    exact ⟨y, c1, c2, hy, hs, rfl⟩
  · rintro ⟨y, c1, c2, hy, hs, rfl⟩
    exact ⟨y, c1, hy, x, c2, hs, (), _, rfl, rfl, rfl⟩

/-- An annotation is resolved to its own slot. -/
lemma nodeType?_resolve (h : Runs (type.resolve tolerance) c x c') :
    c'.nodeType? type.node.id = some x := by
  cases type with
  | named node name arguments =>
    rcases runs_resolve_named h with ⟨_, _, _, h⟩ | ⟨_, _, _, _, _, _, h⟩ | ⟨_, _, h⟩
    · exact Context.nodeType?_of_setShape h
    · exact Context.nodeType?_of_setShape h
    · rcases runs_resolveDeclared.mp h with ⟨_, _, _, _, _, _, h⟩ | ⟨_, _, h⟩
      · exact Context.nodeType?_of_bind h
      · exact Context.nodeType?_of_slotOf h
  | function node parameters returns =>
    obtain ⟨_, _, _, _, _, _, h⟩ := runs_resolve_function h
    exact Context.nodeType?_of_setShape h
  | record node fields =>
    obtain ⟨_, _, _, h⟩ := runs_resolve_record.mp h
    exact Context.nodeType?_of_setShape h
  | inlineEnum node items =>
    obtain ⟨_, _, _, h⟩ := runs_resolve_inlineEnum.mp h
    exact Context.nodeType?_of_setShape h

lemma nodeType?_resolveItem (h : Runs (resolveItem tolerance item) c x c') :
    c'.nodeType? item.id = some x := by
  obtain ⟨node, name, payload⟩ := item
  obtain ⟨_, _, _, h⟩ := runs_resolveItem.mp h
  exact Context.nodeType?_of_setShape h

end TypeExpr

/-! ### Values that meet a type -/

/-- What is deferred in the value is inferred first, if the target is complete; then both agree or
one of them is incomplete. -/
lemma runs_checkAssignable {target found : Slot} {value : Expr} {site : Site}
    (h : Runs (checkAssignable target value found site) c () c') :
    (c.types.hasDeferred found = true ∧ c.types.isIncomplete target = false ∧
        Runs (Infer.expr target value) c () c' ∨
      ¬ (c.types.hasDeferred found = true ∧ c.types.isIncomplete target = false) ∧ c' = c) ∧
    (c'.types.isIncomplete target = true ∨ c'.types.isIncomplete found = true ∨
      c'.types.fits target found = true) := by
  unfold checkAssignable at h
  simp only [runs_bind, Check.runs_types] at h
  obtain ⟨_, _, ⟨rfl, rfl⟩, h⟩ := h
  have hlast : ∀ {c1 : Context}, Runs (do
      let t ← Check.types
      if t.isIncomplete target || t.isIncomplete found || t.fits target found then return
      fail (.mismatch (t.display target) (t.display found) site) value.node.location) c1 () c' →
      c' = c1 ∧ (c'.types.isIncomplete target = true ∨ c'.types.isIncomplete found = true ∨
        c'.types.fits target found = true) := by
    intro c1 h
    simp only [runs_bind, Check.runs_types] at h
    obtain ⟨_, _, ⟨rfl, rfl⟩, h⟩ := h
    split at h
    · next hcond =>
      simp only [runs_pure] at h
      obtain ⟨-, rfl⟩ := h
      simp only [Bool.or_eq_true, or_assoc] at hcond
      exact ⟨rfl, hcond⟩
    · simp at h
  split at h
  · next hcond =>
    simp only [Bool.and_eq_true, Bool.not_eq_true'] at hcond
    simp only [runs_bind] at h
    obtain ⟨_, c1, hinfer, h⟩ := h
    obtain ⟨rfl, hfits⟩ := hlast (by simpa only [runs_bind] using h)
    exact ⟨.inl ⟨hcond.1, hcond.2, hinfer⟩, hfits⟩
  · next hcond =>
    simp only [Bool.and_eq_true, Bool.not_eq_true'] at hcond
    obtain ⟨rfl, hfits⟩ := hlast h
    exact ⟨.inr ⟨hcond, rfl⟩, hfits⟩

/-! ### Expressions -/

namespace Resolve

variable {s s' : Resolving} {plan : Plan} {demand : NodeId → Resolve Unit} {op : BinaryOp}
  {array callee e left object operand position right value : Expr} {name : Ident}
  {arguments elements : List Expr} {slots : List Slot} {i : Nat} {node : Node} {n : NodeId}
  {l r : Slot} {v : VariableDecl}

lemma runs_identifier (h : Runs (identifier demand name) s x s') :
    ∃ d s1 y c1 c2, s.declarationOf? name.name .value = some d ∧ Runs (demand d) s () s1 ∧
      s1.slotOf d = (y, c1) ∧ c1.bind name.id y = (x, c2) ∧ { s1 with toContext := c2 } = s' := by
  unfold identifier at h
  simp only [runs_bind, runs_get] at h
  obtain ⟨_, _, ⟨rfl, rfl⟩, h⟩ := h
  split at h
  · next d hd =>
    simp only [runs_bind, runs_lift, Check.runs_slotOf, Check.runs_bindNode] at h
    obtain ⟨_, s1, hdemand, y, _, ⟨c1, hy, rfl⟩, c2, hbind, rfl⟩ := h
    exact ⟨d, s1, y, c1, c2, hd, hdemand, hy, hbind, rfl⟩
  · simp at h

/-- A name that is no value may be that of a type. -/
lemma runs_typeName {r : Option Slot} (h : Runs (typeName e) c r c') : (r = none ∧ c' = c) ∨
    ∃ name d y c1 x, e = .identifier name ∧ r = some x ∧
      c.declarationOf? name.name .value = none ∧ c.declarationOf? name.name .type = some d ∧
        c.slotOf d = (y, c1) ∧ c1.bind name.id y = (x, c') := by
  unfold typeName at h
  split at h
  · next name =>
    simp only [runs_bind, runs_get] at h
    obtain ⟨_, _, ⟨rfl, rfl⟩, h⟩ := h
    split at h
    · next d hnone hd =>
      simp only [runs_bind, Check.runs_slotOf, Check.runs_bindNode, runs_pure] at h
      obtain ⟨y, c1, hy, x, _, hbind, rfl, rfl⟩ := h
      exact .inr ⟨name, d, y, c1, x, rfl, rfl, by rw [Context.declarationOf?, hnone]; rfl, hd, hy,
        hbind⟩
    · simp only [runs_pure] at h
      exact .inl ⟨h.1.symm, h.2.symm⟩
  · simp only [runs_pure] at h
    exact .inl ⟨h.1.symm, h.2.symm⟩

lemma runs_operandOrType {asValue : Resolve Slot} {b : Bool}
    (h : Runs (operandOrType e asValue) s (x, b) s') : (b = false ∧ Runs asValue s x s') ∨
    (b = true ∧ ∃ name d y c1 c2, e = .identifier name ∧
      s.declarationOf? name.name .value = none ∧ s.declarationOf? name.name .type = some d ∧
        s.slotOf d = (y, c1) ∧ c1.bind name.id y = (x, c2) ∧ { s with toContext := c2 } = s') := by
  unfold operandOrType at h
  simp only [runs_bind, runs_lift] at h
  obtain ⟨r, _, ⟨c2, hr, rfl⟩, h⟩ := h
  rcases runs_typeName hr with ⟨rfl, rfl⟩ | ⟨name, d, y, c1, z, rfl, rfl, hnone, hd, hy, hbind⟩
  · simp only [runs_bind, runs_pure] at h
    obtain ⟨_, _, hv, heq, rfl⟩ := h
    cases heq
    exact .inl ⟨rfl, hv⟩
  · simp only [runs_pure] at h
    obtain ⟨heq, rfl⟩ := h
    cases heq
    exact .inr ⟨rfl, name, d, y, c1, c2, rfl, hnone, hd, hy, hbind, rfl⟩

lemma runs_enclosingClass {keyword : String} {l : Location}
    (h : Runs (enclosingClass keyword l) c n c') :
    ∃ id sc, c.enclosing? .object = some id ∧ c.scope? id = some sc ∧ n = sc.node ∧ c' = c := by
  unfold enclosingClass at h
  simp only [runs_bind, runs_get] at h
  obtain ⟨_, _, ⟨rfl, rfl⟩, h⟩ := h
  split at h
  · next sc hsc =>
    simp only [runs_pure] at h
    obtain ⟨id, hid, hsc⟩ := Option.bind_eq_some_iff.mp hsc
    exact ⟨id, sc, hid, hsc, h.1.symm, h.2.symm⟩
  · simp at h

lemma runs_selfRule (h : Runs (selfRule node) c x c') :
    ∃ id sc y c1, c.enclosing? .object = some id ∧ c.scope? id = some sc ∧
      c.slotOf sc.node = (y, c1) ∧ c1.bind node.id y = (x, c') := by
  simp only [selfRule, runs_bind, Check.runs_slotOf, Check.runs_bindNode] at h
  obtain ⟨_, _, hn, y, c1, hy, hbind⟩ := h
  obtain ⟨id, sc, hid, hsc, rfl, rfl⟩ := runs_enclosingClass hn
  exact ⟨id, sc, y, c1, hid, hsc, hy, hbind⟩

lemma runs_superRule (h : Runs (superRule node) c x c') :
    ∃ id sc y c1 b, c.enclosing? .object = some id ∧ c.scope? id = some sc ∧
      c.slotOf sc.node = (y, c1) ∧ c1.types.base? y = some b ∧ c1.bind node.id b = (x, c') := by
  simp only [superRule, runs_bind, Check.runs_slotOf, Check.runs_types] at h
  obtain ⟨_, _, hn, y, c1, hy, _, _, ⟨rfl, rfl⟩, h⟩ := h
  obtain ⟨id, sc, hid, hsc, rfl, rfl⟩ := runs_enclosingClass hn
  split at h
  · next b hb => exact ⟨id, sc, y, c1, b, hid, hsc, hy, hb, by simpa using h⟩
  · simp [Check.display] at h

/-- What can be called: the name of a class, without arguments, or a function. -/
lemma runs_callParameters {k : Nat} {isType : Bool} {ps : Option (List (String × Slot))}
    (h : Runs (callParameters node callee k x isType) c ps c') : c' = c ∧
    ((ps = none ∧ isType = true ∧ k = 0 ∧ (c.types.get x).isObject = true) ∨
      ∃ r params, ps = some params ∧ isType = false ∧ c.types.get x = .function r params ∧
        params.length = k) := by
  unfold callParameters at h
  simp only [runs_bind, Check.runs_types] at h
  obtain ⟨_, _, ⟨rfl, rfl⟩, h⟩ := h
  split at h
  · next hx =>
    simp only [runs_refuse, runs_pure] at h
    obtain ⟨hk, rfl, rfl⟩ := h
    exact ⟨rfl, .inl ⟨rfl, rfl, not_not.mp hk, by rw [hx]; rfl⟩⟩
  · next r params hx =>
    simp only [runs_refuse, runs_pure] at h
    obtain ⟨hk, rfl, rfl⟩ := h
    exact ⟨rfl, .inr ⟨r, params, rfl, rfl, hx, not_not.mp hk⟩⟩
  · simp at h

lemma runs_inferOperands (h : Runs (inferOperands left right l r) c () c') :
    (c.types.hasDeferred l = true ∧ c.types.isIncomplete r = false ∧
      Runs (Infer.expr (c.types.valueOf r) left) c () c') ∨
    (c.types.hasDeferred r = true ∧ c.types.isIncomplete l = false ∧
      Runs (Infer.expr (c.types.valueOf l) right) c () c') ∨
    ((c.types.hasDeferred l = true → c.types.isIncomplete r = true) ∧
      (c.types.hasDeferred r = true → c.types.isIncomplete l = true) ∧ c' = c) := by
  unfold inferOperands at h
  simp only [runs_bind, Check.runs_types] at h
  obtain ⟨_, _, ⟨rfl, rfl⟩, h⟩ := h
  split at h
  · next hl =>
    simp only [Bool.and_eq_true, Bool.not_eq_true'] at hl
    exact .inl ⟨hl.1, hl.2, h⟩
  · next hl =>
    split at h
    · next hr =>
      simp only [Bool.and_eq_true, Bool.not_eq_true'] at hr
      exact .inr (.inl ⟨hr.1, hr.2, h⟩)
    · next hr =>
      simp only [runs_pure] at h
      exact .inr (.inr ⟨fun hd => by simpa [hd] using hl, fun hd => by simpa [hd] using hr,
        h.2.symm⟩)

lemma runs_isRule (h : Runs (isRule node right l r) c x c') :
    (c.types.isIncomplete l = true ∨ c.types.isIncomplete r = true ∨
      Relation.hierarchy.holds c.types (c.types.valueOf l) (c.types.valueOf r) = true) ∧
    c.setShape node.id .boolean = (x, c') := by
  unfold isRule at h
  simp only [runs_bind, Check.runs_types] at h
  obtain ⟨_, _, ⟨rfl, rfl⟩, h⟩ := h
  simp only [runs_refuse, Check.runs_setShape] at h
  refine ⟨?_, h.2⟩
  have hcond := h.1
  revert hcond
  cases c.types.isIncomplete l <;> cases c.types.isIncomplete r <;>
    cases Relation.hierarchy.holds c.types (c.types.valueOf l) (c.types.valueOf r) <;> simp

lemma runs_checkOperands {lValue rValue : Slot}
    (h : Runs (checkOperands op left right l r lValue rValue) c () c') :
    c' = c ∧ (c.types.isIncomplete l = true ∨ c.types.isIncomplete r = true ∨
      (Relation.value.holds c.types l r = true ∧ operandFits op (c.types.get lValue) = true)) := by
  unfold checkOperands at h
  simp only [runs_bind, Check.runs_types] at h
  obtain ⟨_, _, ⟨rfl, rfl⟩, h⟩ := h
  split at h
  · next hcond =>
    simp only [runs_pure] at h
    refine ⟨h.2.symm, ?_⟩
    simp only [Bool.or_eq_true] at hcond
    tauto
  · simp only [runs_refuse] at h
    obtain ⟨hholds, h⟩ := h
    split at h
    · simp at h
    · next hfits =>
      simp only [runs_pure] at h
      exact ⟨h.2.symm, .inr (.inr ⟨by simpa using hholds, by simpa using hfits⟩)⟩

lemma runs_binaryRule (h : Runs (binaryRule node op left right l r) c x c') :
    (op = .is ∧ Runs (isRule node right l r) c x c') ∨
    (op ≠ .is ∧ ∃ c1, Runs (inferOperands left right l r) c () c1 ∧
      Runs (checkOperands op left right l r (c.types.valueOf l) (c.types.valueOf r)) c1 () c1 ∧
        (c1.setShape node.id .boolean = (x, c') ∨
          ∃ c2, c1.slotOf node.id = (x, c2) ∧ c2.assign x (c.types.valueOf l) = c')) := by
  unfold binaryRule at h
  simp only [runs_bind, Check.runs_types] at h
  obtain ⟨_, _, ⟨rfl, rfl⟩, h⟩ := h
  simp only [runs_refuse] at h
  obtain ⟨-, h⟩ := h
  split at h
  · next hop => exact .inl ⟨hop, h⟩
  · next hop =>
    simp only [runs_bind] at h
    obtain ⟨_, c1, hinfer, _, c2, hcheck, h⟩ := h
    obtain ⟨rfl, -⟩ := runs_checkOperands hcheck
    refine .inr ⟨hop, _, hinfer, hcheck, ?_⟩
    split at h
    · exact .inl (by simpa using h)
    · simp only [runs_bind, Check.runs_slotOf, Check.runs_assign, runs_pure] at h
      obtain ⟨_, c3, hs, _, _, rfl, rfl, rfl⟩ := h
      exact .inr ⟨c3, hs, rfl⟩

/-- What an operand of a unary operator has to be. -/
def unaryFits (op : UnaryOp) (shape : Shape) : Bool :=
  match op with
  | .neg => shape.isNumber
  | .not => shape.isBoolean

lemma runs_unaryRule {op : UnaryOp} (h : Runs (unaryRule node op operand y) c x c') :
    (unaryFits op (c.types.get (c.types.valueOf y)) = true ∨
      c.types.isIncomplete (c.types.valueOf y) = true) ∧
    (c.setShape node.id .boolean = (x, c') ∨
      ∃ c1, c.slotOf node.id = (x, c1) ∧ c1.assign x (c.types.valueOf y) = c') := by
  unfold unaryRule at h
  simp only [runs_bind, Check.runs_types] at h
  obtain ⟨_, _, ⟨rfl, rfl⟩, h⟩ := h
  simp only [runs_refuse] at h
  obtain ⟨hfits, h⟩ := h
  constructor
  · have heq : ∀ a b : Bool, ¬ (!a && !b) = true → a = true ∨ b = true := by decide
    exact heq _ _ hfits
  · split at h
    · exact .inl (by simpa using h)
    · simp only [runs_bind, Check.runs_slotOf, Check.runs_assign, runs_pure] at h
      obtain ⟨_, c1, hs, _, _, rfl, rfl, rfl⟩ := h
      exact .inr ⟨c1, hs, rfl⟩

lemma runs_itemRule (h : Runs (itemRule node name y) c x c') : c.bind node.id y = (x, c') := by
  unfold itemRule at h
  simp only [runs_bind, Check.runs_types] at h
  obtain ⟨_, _, ⟨rfl, rfl⟩, h⟩ := h
  split at h
  · split at h
    · simpa using h
    · simp at h
  · simp at h

/-- A member is a field of a class, which may have to be demanded; otherwise the object is
incomplete. -/
lemma runs_memberRule (h : Runs (memberRule plan demand node object name y) s x s') :
    (∃ field s1 c1, s.types.findField? (s.types.valueOf y) name.name = some field ∧
      ((∃ d, plan.ownerOfSlot.get? field = some d ∧ Runs (demand d) s () s1) ∨
        (plan.ownerOfSlot.get? field = none ∧ s1 = s)) ∧
      s1.bind node.id field = (x, c1) ∧ { s1 with toContext := c1 } = s') ∨
    (s.types.isIncomplete (s.types.valueOf y) = true ∧
      ∃ c1, s.slotOf node.id = (x, c1) ∧ { s with toContext := c1 } = s') := by
  unfold memberRule at h
  simp only [runs_bind, runs_get] at h
  obtain ⟨_, _, ⟨rfl, rfl⟩, h⟩ := h
  split at h
  · split at h
    · simp at h
    · next field hfield =>
      left
      split at h
      · next d hd =>
        simp only [runs_bind, runs_lift, Check.runs_bindNode] at h
        obtain ⟨_, s1, hdemand, c1, hbind, rfl⟩ := h
        exact ⟨field, s1, c1, hfield, .inl ⟨d, hd, hdemand⟩, hbind, rfl⟩
      · next hd =>
        simp only [runs_lift, Check.runs_bindNode] at h
        obtain ⟨c1, hbind, rfl⟩ := h
        exact ⟨field, _, c1, hfield, .inr ⟨hd, rfl⟩, hbind, rfl⟩
  · split at h
    · next hi =>
      simp only [runs_lift, Check.runs_slotOf] at h
      exact .inr ⟨hi, h⟩
    · simp at h

lemma runs_indexRule {a p : Slot} (h : Runs (indexRule node array position a p) c x c') :
    (c.types.isIncomplete a = true ∧ c.slotOf node.id = (x, c')) ∨
    ∃ element, c.types.arrayElement? a = some element ∧
      (c.types.isIncomplete p = true ∨ (c.types.get p).isInteger = true) ∧
        c.bind node.id element = (x, c') := by
  unfold indexRule at h
  simp only [runs_bind, Check.runs_types] at h
  obtain ⟨_, _, ⟨rfl, rfl⟩, h⟩ := h
  split at h
  · split at h
    · next hi => exact .inl ⟨hi, by simpa using h⟩
    · simp at h
  · next element hel =>
    simp only [runs_refuse, Check.runs_bindNode] at h
    refine .inr ⟨element, hel, ?_, h.2⟩
    have heq : ∀ a b : Bool, ¬ (!a && !b) = true → a = true ∨ b = true := by decide
    exact heq _ _ h.1

lemma runs_assignRule {target v : Slot} (h : Runs (assignRule node value target v) c x c') :
    (c.types.get v).isVoid = false ∧ (c.types.get target).isVoid = false ∧
      ∃ c1, Runs (checkAssignable target value v .assignment) c () c1 ∧
        c1.bind node.id v = (x, c') := by
  unfold assignRule at h
  simp only [runs_bind, Check.runs_types] at h
  obtain ⟨_, _, ⟨rfl, rfl⟩, h⟩ := h
  simp only [runs_refuse, runs_bind, Check.runs_bindNode, Bool.or_eq_true, not_or,
    Bool.not_eq_true] at h
  obtain ⟨⟨hv, ht⟩, _, c1, hcheck, hbind⟩ := h
  exact ⟨hv, ht, c1, hcheck, hbind⟩

lemma runs_checkElements_cons {anchor : Slot} {rest : List (Expr × Slot)}
    (h : Runs (checkElements anchor i ((e, y) :: rest)) c () c') :
    ∃ c1, (c.types.hasDeferred y = true ∧ Runs (Infer.expr anchor e) c () c1 ∨
        c.types.hasDeferred y = false ∧ c1 = c) ∧
      Runs (checkElements anchor (i + 1) rest) c1 () c' := by
  unfold checkElements at h
  simp only [runs_bind, Check.runs_types] at h
  obtain ⟨_, _, ⟨rfl, rfl⟩, h⟩ := h
  split at h
  · next hd =>
    simp only [runs_bind] at h
    obtain ⟨_, c1, hinfer, hrest⟩ := h
    exact ⟨c1, .inl ⟨hd, hinfer⟩, hrest⟩
  · next hd =>
    simp only [runs_refuse] at h
    exact ⟨c, .inr ⟨by simpa using hd, rfl⟩, h.2⟩

/-- The element slot of an array literal holds a copy of the anchor, or is deferred. -/
lemma runs_arrayRule (h : Runs (arrayRule node elements slots) c x c') :
    ∃ c1 shape, ((∃ anchor, slots.find? (fun s => !c.types.isIncomplete s) = some anchor ∧
        Runs (checkElements anchor 0 (elements.zip slots)) c () c1 ∧ shape = c1.types.get anchor) ∨
      (slots.find? (fun s => !c.types.isIncomplete s) = none ∧ c1 = c ∧ shape = .deferred)) ∧
    (c1.alloc shape).2.setShape node.id (.generic Shape.arrayName [c1.types.size]) = (x, c') := by
  unfold arrayRule at h
  simp only [runs_bind, Check.runs_types] at h
  obtain ⟨_, _, ⟨rfl, rfl⟩, h⟩ := h
  split at h
  · next anchor ha =>
    simp only [runs_bind, Check.runs_types, Check.runs_alloc, Check.runs_setShape] at h
    obtain ⟨_, c1, hcheck, _, _, ⟨rfl, rfl⟩, element, c2, halloc, hset⟩ := h
    cases halloc
    exact ⟨c1, _, .inl ⟨anchor, ha, hcheck, rfl⟩, hset⟩
  · next ha =>
    simp only [runs_bind, Check.runs_alloc, Check.runs_setShape] at h
    obtain ⟨element, c2, halloc, hset⟩ := h
    cases halloc
    exact ⟨c, _, .inr ⟨ha, rfl, rfl⟩, hset⟩

/-! ### The parts of an expression -/

lemma runs_expr_call (h : Runs (expr plan demand (.call node callee arguments)) s x s') :
    ∃ y b s1, Runs (operandOrType callee (expr plan demand callee)) s (y, b) s1 ∧
      ((b = true ∧ arguments = [] ∧ (s1.types.get y).isObject = true ∧
          ∃ c1, s1.bind node.id y = (x, c1) ∧ { s1 with toContext := c1 } = s') ∨
        (b = false ∧ ∃ r params s2 c1, s1.types.get y = .function r params ∧
          params.length = arguments.length ∧
          Runs (callArguments plan demand (calleeName callee) 0 arguments params) s1 () s2 ∧
          s2.bind node.id (s2.types.valueOf y) = (x, c1) ∧ { s2 with toContext := c1 } = s')) := by
  simp only [expr, runs_bind] at h
  obtain ⟨⟨y, b⟩, s1, hcallee, ps, _, hps, h⟩ := h
  refine ⟨y, b, s1, hcallee, ?_⟩
  simp only [runs_lift] at hps
  obtain ⟨c1, hps, rfl⟩ := hps
  obtain ⟨rfl, ⟨rfl, hb, hk, hobj⟩ | ⟨r, params, rfl, hb, hget, hk⟩⟩ := runs_callParameters hps
  · simp only [runs_lift, Check.runs_bindNode] at h
    exact .inl ⟨hb, List.eq_nil_of_length_eq_zero hk, hobj, h⟩
  · simp only [runs_bind, runs_get, runs_lift, Check.runs_bindNode] at h
    obtain ⟨_, s2, hargs, _, _, ⟨rfl, rfl⟩, c2, hbind, rfl⟩ := h
    exact .inr ⟨hb, r, params, s2, c2, hget, hk, hargs, hbind, rfl⟩

lemma runs_callArguments_cons {callee : String} {argument : Expr} {parameter : String}
    {expected : Slot} {parameters : List (String × Slot)}
    (h : Runs (callArguments plan demand callee i (argument :: arguments)
      ((parameter, expected) :: parameters)) s () s') :
    ∃ found s1 c1 site, Runs (expr plan demand argument) s found s1 ∧
      Runs (checkAssignable expected argument found site) s1.toContext () c1 ∧
      Runs (callArguments plan demand callee (i + 1) arguments parameters)
        { s1 with toContext := c1 } () s' := by
  simp only [callArguments, runs_bind, runs_lift] at h
  obtain ⟨found, s1, he, _, _, ⟨c1, hcheck, rfl⟩, hrest⟩ := h
  exact ⟨found, s1, c1, _, he, hcheck, hrest⟩

lemma runs_expr_binary (h : Runs (expr plan demand (.binary node op left right)) s x s') :
    ∃ l r s1 s2 c1, Runs (expr plan demand left) s l s1 ∧
      (Runs (expr plan demand right) s1 r s2 ∨
        ∃ b, op = .is ∧ Runs (operandOrType right (expr plan demand right)) s1 (r, b) s2) ∧
      Runs (binaryRule node op left right l r) s2.toContext x c1 ∧
        { s2 with toContext := c1 } = s' := by
  simp only [expr, runs_bind] at h
  obtain ⟨l, s1, hl, h⟩ := h
  split at h
  · next hop =>
    simp only [runs_bind, runs_map, runs_lift] at h
    obtain ⟨r, s2, ⟨⟨_, b⟩, hr, rfl⟩, c1, hrule, rfl⟩ := h
    exact ⟨l, _, s1, s2, c1, hl, .inr ⟨b, hop, hr⟩, hrule, rfl⟩
  · simp only [runs_bind, runs_lift] at h
    obtain ⟨r, s2, hr, c1, hrule, rfl⟩ := h
    exact ⟨l, r, s1, s2, c1, hl, .inl hr, hrule, rfl⟩

lemma runs_expr_unary {op : UnaryOp} (h : Runs (expr plan demand (.unary node op operand)) s x s') :
    ∃ y s1 c1, Runs (expr plan demand operand) s y s1 ∧
      Runs (unaryRule node op operand y) s1.toContext x c1 ∧ { s1 with toContext := c1 } = s' := by
  simp only [expr, runs_bind, runs_lift] at h
  obtain ⟨y, s1, he, c1, hrule, rfl⟩ := h
  exact ⟨y, s1, c1, he, hrule, rfl⟩

lemma runs_expr_member (h : Runs (expr plan demand (.member node object name)) s x s') :
    ∃ y b s1, Runs (operandOrType object (expr plan demand object)) s (y, b) s1 ∧
      ((b = true ∧ ∃ c1, s1.bind node.id y = (x, c1) ∧ { s1 with toContext := c1 } = s') ∨
        (b = false ∧ Runs (memberRule plan demand node object name y) s1 x s')) := by
  simp only [expr, runs_bind] at h
  obtain ⟨⟨y, b⟩, s1, ho, h⟩ := h
  refine ⟨y, b, s1, ho, ?_⟩
  split at h
  · next hb =>
    simp only [runs_lift] at h
    obtain ⟨c1, hitem, rfl⟩ := h
    exact .inl ⟨hb, c1, runs_itemRule hitem, rfl⟩
  · next hb => exact .inr ⟨by simpa using hb, h⟩

lemma runs_expr_index (h : Runs (expr plan demand (.index node array position)) s x s') :
    ∃ a p s1 s2 c1, Runs (expr plan demand array) s a s1 ∧
      Runs (expr plan demand position) s1 p s2 ∧
      Runs (indexRule node array position a p) s2.toContext x c1 ∧
        { s2 with toContext := c1 } = s' := by
  simp only [expr, runs_bind, runs_lift] at h
  obtain ⟨a, s1, ha, p, s2, hp, c1, hrule, rfl⟩ := h
  exact ⟨a, p, s1, s2, c1, ha, hp, hrule, rfl⟩

lemma runs_expr_assign {target : Expr}
    (h : Runs (expr plan demand (.assign node target value)) s x s') :
    ∃ t v s1 s2 c1, Runs (expr plan demand target) s t s1 ∧
      Runs (expr plan demand value) s1 v s2 ∧
      Runs (assignRule node value t v) s2.toContext x c1 ∧ { s2 with toContext := c1 } = s' := by
  simp only [expr, runs_refuse, runs_bind, runs_lift] at h
  obtain ⟨-, t, s1, ht, v, s2, hv, c1, hrule, rfl⟩ := h
  exact ⟨t, v, s1, s2, c1, ht, hv, hrule, rfl⟩

lemma runs_expr_array (h : Runs (expr plan demand (.array node elements)) s x s') :
    ∃ slots s1 c1, Runs (exprs plan demand elements) s slots s1 ∧
      Runs (arrayRule node elements slots) s1.toContext x c1 ∧
        { s1 with toContext := c1 } = s' := by
  simp only [expr, runs_bind, runs_lift] at h
  obtain ⟨slots, s1, hes, c1, hrule, rfl⟩ := h
  exact ⟨slots, s1, c1, hes, hrule, rfl⟩

lemma runs_expr_record {values : List FieldValue}
    (h : Runs (expr plan demand (.record node values)) s x s') :
    ∃ slots s1 c1, Runs (fieldValues plan demand values) s slots s1 ∧
      s1.setShape node.id (.record s1.currentOrRoot slots) = (x, c1) ∧
        { s1 with toContext := c1 } = s' := by
  simp only [expr, runs_bind, runs_get, runs_lift, Check.runs_setShape] at h
  obtain ⟨slots, s1, hvs, _, _, ⟨rfl, rfl⟩, c1, hset, rfl⟩ := h
  exact ⟨slots, s1, c1, hvs, hset, rfl⟩

lemma runs_exprs_cons {rest : List Expr} : Runs (exprs plan demand (e :: rest)) s slots s' ↔
      ∃ x s1 xs, Runs (expr plan demand e) s x s1 ∧ Runs (exprs plan demand rest) s1 xs s' ∧
        x :: xs = slots := by
  simp [exprs]

lemma runs_fieldValues_cons {rest : List FieldValue} {slots : List (String × Slot)} :
    Runs (fieldValues plan demand (⟨node, name, value⟩ :: rest)) s slots s' ↔
      ∃ x s1 xs, Runs (expr plan demand value) s x s1 ∧
        Runs (fieldValues plan demand rest) s1 xs s' ∧ (name.name, x) :: xs = slots := by
  simp [fieldValues]

/-! ### Variables and demands -/

/-- What is done at a variable before its value is resolved: it gets its slot, and this then holds
the annotation. -/
def Prepares (v : VariableDecl) (c : Context) (y : Slot) (c' : Context) : Prop :=
  ∃ c1, c.slotOf v.id = (y, c1) ∧ (v.type = none ∧ c' = c1 ∨
    ∃ type declared c2, v.type = some type ∧ Runs (type.resolve .strict) c1 declared c2 ∧
      c' = c2.assign y declared)

lemma runs_variableType (h : Runs (variableType plan demand v) s () s') :
    ∃ y c, Prepares v s.toContext y c ∧
      (v.value = none ∧ v.type.isSome ∧ { s with toContext := c } = s' ∨
        ∃ e found s2, v.value = some e ∧
          Runs (expr plan demand e) { s with toContext := c } found s2 ∧
          (v.type.isSome ∧ (∃ c2, Runs (checkAssignable y e found .definition) s2.toContext () c2 ∧
              { s2 with toContext := c2 } = s') ∨
            v.type = none ∧ { s2 with toContext := s2.assign y found } = s')) := by
  unfold variableType at h
  simp only [runs_bind, runs_lift, Check.runs_slotOf] at h
  obtain ⟨y, _, ⟨c1, hy, rfl⟩, h⟩ := h
  split at h
  · next _ type ht =>
    simp only [runs_bind, runs_lift, Check.runs_assign] at h
    obtain ⟨declared, _, ⟨c2, hd, rfl⟩, _, _, ⟨_, rfl, rfl⟩, h⟩ := h
    refine ⟨y, _, ⟨c1, hy, .inr ⟨type, declared, c2, ht, hd, rfl⟩⟩, ?_⟩
    split at h
    · next e hv =>
      simp only [runs_bind, runs_lift] at h
      obtain ⟨found, s3, he, hcheck⟩ := h
      exact .inr ⟨e, found, s3, hv, he, .inl ⟨by simp [ht], hcheck⟩⟩
    · next hv =>
      simp only [runs_pure] at h
      exact .inl ⟨hv, by simp [ht], h.2⟩
  · next e ht hv =>
    simp only [runs_bind, runs_get] at h
    obtain ⟨found, s2, he, _, _, ⟨rfl, rfl⟩, h⟩ := h
    simp only [runs_refuse, runs_lift, Check.runs_assign] at h
    obtain ⟨-, _, rfl, rfl⟩ := h
    exact ⟨y, c1, ⟨c1, hy, .inl ⟨ht, rfl⟩⟩, .inr ⟨e, found, s2, hv, he, .inr ⟨ht, rfl⟩⟩⟩
  · simp at h

/-- The variable counts as resolved from here on. -/
def settle (n : NodeId) (s : Resolving) : Resolving :=
  { s with resolving := s.resolving.tail, resolved := n :: s.resolved }

lemma runs_variableDecl (h : Runs (variableDecl plan demand v) s () s') :
    ((v.id ∈ s.resolved ∨ v.id ∈ s.resolving) ∧ s' = s) ∨
    (v.id ∉ s.resolved ∧ v.id ∉ s.resolving ∧ ∃ s1,
      Runs (variableType plan demand v) { s with resolving := v.id :: s.resolving } () s1 ∧
        (s1.currentKind? ≠ some .body ∧ s' = settle v.id s1 ∨
          s1.currentKind? = some .body ∧ ∃ c,
            Runs (Check.declare v.name.name .value v.id v.location) s1.toContext () c ∧
              s' = { settle v.id s1 with toContext := c })) := by
  unfold variableDecl isTaken at h
  simp only [runs_bind, runs_get, runs_pure] at h
  obtain ⟨_, _, ⟨_, _, ⟨rfl, rfl⟩, rfl, rfl⟩, h⟩ := h
  split at h
  · next ht =>
    simp only [runs_pure] at h
    exact .inl ⟨by simpa using ht, h.2.symm⟩
  · next ht =>
    simp only [Bool.or_eq_true, List.contains_iff_mem, not_or] at ht
    refine .inr ⟨ht.1, ht.2, ?_⟩
    simp only [whileResolving, runs_bind, runs_bracket, runs_modify, runs_get] at h
    obtain ⟨_, _, ⟨_, s1, rfl, hv, rfl⟩, _, _, rfl, _, _, ⟨rfl, rfl⟩, h⟩ := h
    refine ⟨s1, hv, ?_⟩
    split at h
    · next hkind =>
      simp only [runs_lift] at h
      obtain ⟨c, hc, rfl⟩ := h
      exact .inr ⟨hkind, c, hc, rfl⟩
    · next hkind =>
      simp only [runs_pure] at h
      exact .inl ⟨hkind, h.2.symm⟩

/-- A demand for a variable that is not taken yet resolves it in the scope it belongs to. -/
lemma runs_demandWithin {depth : Nat} (h : Runs (demandWithin plan depth n) s () s') :
    (s' = s ∧ ∀ q, plan.pending.get? n = some q → depth = 0 ∨ n ∈ s.resolved ∨ n ∈ s.resolving ∨
      s.scopeOf? q.owner = none) ∨
    ∃ q scope depth' s1, depth = depth' + 1 ∧ plan.pending.get? n = some q ∧
      s.scopeOf? q.owner = some scope ∧
      Runs (variableDecl plan (demandWithin plan depth') q.decl)
        { s with stack := s.around scope } () s1 ∧ s' = { s1 with stack := s.stack } := by
  cases depth with
  | zero =>
    simp only [demandWithin, runs_pure] at h
    exact .inl ⟨h.2.symm, fun _ _ => .inl rfl⟩
  | succ depth =>
    unfold demandWithin at h
    split at h
    · next hq =>
      simp only [runs_pure] at h
      refine .inl ⟨h.2.symm, fun q hq' => ?_⟩
      rw [hq] at hq'
      cases hq'
    · next q hq =>
      simp only [isTaken, runs_bind, runs_get, runs_pure] at h
      obtain ⟨_, _, ⟨_, _, ⟨rfl, rfl⟩, rfl, rfl⟩, h⟩ := h
      split at h
      · next ht =>
        simp only [runs_pure] at h
        simp only [Bool.or_eq_true, List.contains_iff_mem] at ht
        refine .inl ⟨h.2.symm, fun _ _ => ?_⟩
        tauto
      · simp only [runs_bind, runs_get] at h
        obtain ⟨_, _, ⟨rfl, rfl⟩, h⟩ := h
        split at h
        · next hs =>
          simp only [runs_pure] at h
          refine .inl ⟨h.2.symm, fun q' hq' => ?_⟩
          rw [hq] at hq'
          cases hq'
          exact .inr (.inr (.inr hs))
        · next scope hs =>
          simp only [withStack, runs_bind, runs_get, runs_bracket, runs_modify, runs_within] at h
          obtain ⟨_, _, ⟨rfl, rfl⟩, _, s1, rfl, hv, rfl⟩ := h
          exact .inr ⟨q, scope, depth, s1, rfl, hq, hs, hv, rfl⟩

/-! ### Statements -/

lemma runs_enclosingResult {l : Location} {p : ScopeId × Slot}
    (h : Runs (enclosingResult l) c p c') :
    ∃ sc ps, c.enclosing? .function = some p.1 ∧ c.scope? p.1 = some sc ∧
      c.shape? sc.node = some (.function p.2 ps) ∧ c' = c := by
  unfold enclosingResult at h
  simp only [runs_bind, runs_get] at h
  obtain ⟨_, _, ⟨rfl, rfl⟩, h⟩ := h
  split at h
  · simp at h
  · next id hid =>
    split at h
    · next r ps hr =>
      simp only [runs_pure] at h
      obtain ⟨rfl, rfl⟩ := h
      obtain ⟨sc, hsc, hshape⟩ := Option.bind_eq_some_iff.mp hr
      exact ⟨sc, ps, hid, hsc, hshape, rfl⟩
    · simp at h

lemma runs_returnRule {value : Option Expr} (h : Runs (returnRule plan node value) s () s') :
    ∃ id sc r ps, s.enclosing? .function = some id ∧ s.scope? id = some sc ∧
      s.shape? sc.node = some (.function r ps) ∧
      ((value = none ∧ (s.types.get r).isVoid = true ∧
          s' = { s with toContext := s.toContext.markReturn id }) ∨
        ∃ e found s1 c1, value = some e ∧ (s.types.get r).isVoid = false ∧
          Runs (expr plan (Resolve.demand plan) e) s found s1 ∧
          Runs (checkAssignable r e found .returned) s1.toContext () c1 ∧
            s' = { s1 with toContext := c1.markReturn id }) := by
  unfold returnRule at h
  simp only [runs_bind, runs_lift, runs_get] at h
  obtain ⟨⟨id, r⟩, _, ⟨_, hres, rfl⟩, _, _, ⟨rfl, rfl⟩, h⟩ := h
  obtain ⟨sc, ps, hid, hsc, hshape, rfl⟩ := runs_enclosingResult hres
  refine ⟨id, sc, r, ps, hid, hsc, hshape, ?_⟩
  split at h
  · simp at h
  · next e hvoid =>
    simp only [runs_bind, runs_lift, runs_modify] at h
    obtain ⟨found, s1, he, _, _, ⟨c1, hcheck, rfl⟩, rfl⟩ := h
    exact .inr ⟨e, found, s1, c1, rfl, hvoid, he, hcheck, rfl⟩
  · simp at h
  · next hvoid =>
    simp only [runs_modify] at h
    exact .inl ⟨rfl, hvoid, h.symm⟩

lemma runs_condition (h : Runs (condition plan e) s () s') :
    ∃ found, Runs (expr plan (Resolve.demand plan) e) s found s' ∧
      (s'.types.isIncomplete found = true ∨ (s'.types.get found).isBoolean = true) := by
  unfold condition at h
  simp only [runs_bind, runs_get] at h
  obtain ⟨found, s1, he, _, _, ⟨rfl, rfl⟩, h⟩ := h
  split at h
  · next hcond =>
    simp only [runs_pure] at h
    obtain ⟨-, rfl⟩ := h
    exact ⟨found, he, by simpa using hcond⟩
  · simp at h

lemma runs_typeVoid (h : Runs (typeVoid node) c () c') :
    ∃ y, c.setShape node.id .void = (y, c') := by
  simp only [typeVoid, runs_bind, Check.runs_setShape, runs_pure] at h
  obtain ⟨y, _, hset, -, rfl⟩ := h
  exact ⟨y, hset⟩

lemma runs_inScope {α : Type} {mode : ScopeMode} {kind : ScopeKind} {body : Resolve α} {a : α}
    (h : Runs (inScope mode kind node body) s a s') :
    ∃ c1 s2, Runs (mode.enter kind node.id node.location) s.toContext () c1 ∧
      Runs body { s with toContext := c1 } a s2 ∧
        s' = { s2 with toContext := mode.leave s2.toContext } := by
  obtain ⟨_, s2, hopen, hbody, rfl⟩ := runs_bracket.mp h
  obtain ⟨c1, henter, rfl⟩ := runs_ofCheck.mp hopen
  exact ⟨c1, s2, henter, hbody, rfl⟩

end Resolve

end Sema
