import Sema.Proofs.Access
import Sema.Proofs.Ensures
import Sema.Proofs.Layout

/-!
What is done to a context alone: single operations, inference, and the rules for expressions whose
parts have been resolved. Whatever they do is a sequence of operations that are given existing
handles, from every well-formed context; so the context stays well formed, also when a step ends in
a fault. Along with that it is said what a function gives back: slots that exist, and types for the
nodes that it has been to.
-/

namespace Sema

open Sema.Action Context

open Cause.Regular (ordinary)

/-! ### Single operations -/

/-- From a well-formed context operations lead to another one. -/
structure Context.Leads (c c' : Context) : Prop where
  steps : Steps c c'
  wellFormed : c'.WellFormed

namespace Context.Leads

variable {c c1 c' : Context} {x : Slot} {ns : List NodeId}

lemma refl (hc : c.WellFormed) : Leads c c := ⟨.refl, hc⟩

lemma trans (h : Leads c c1) (h' : Leads c1 c') : Leads c c' :=
  ⟨h.steps.trans h'.steps, h'.wellFormed⟩

instance : IsTrans Context Leads := ⟨fun _ _ _ => trans⟩

lemma op (hc : c.WellFormed) (op : Op) (h : op.Valid c) : Leads c (op.run.outcome c).2 :=
  ⟨.single ⟨op, h, rfl⟩, op.wellFormed hc h⟩

lemma lt (h : Leads c c') (hx : x < c.types.size) : x < c'.types.size :=
  hx.trans_le h.steps.onward.size_le

lemma typed (h : Leads c c') (hn : c.Typed ns) : c'.Typed ns :=
  fun n hn' => (hn n hn').imp fun x hx => h.steps.onward.nodeType n x hx

end Context.Leads

namespace Context

variable {c : Context}

lemma WellFormed.currentOrRoot (hc : c.WellFormed) :
    c.currentOrRoot = rootScope ∨ c.currentOrRoot < c.scopes.size := by
  unfold Context.currentOrRoot
  rcases h : c.current? with _ | id
  · exact .inl rfl
  · exact .inr (hc.current?_lt h)

/-- A class, a record or the like that is made up in the current scope. -/
lemma WellFormed.knows_here (hc : c.WellFormed) {shape : Shape}
    (hscope : shape.scope? = some c.currentOrRoot) (h : ∀ y ∈ shape.handles, y < c.types.size) :
    c.Knows shape :=
  ⟨h, fun id hid => by
    cases hscope.symm.trans hid
    exact hc.currentOrRoot⟩

end Context

namespace Check

variable {E : Cause → Prop} {c : Context} {shape : Shape} {source : Slot}

/-- A slot that exists and that the node has. -/
def Gives (n : NodeId) (x : Slot) (c : Context) : Prop :=
  x < c.types.size ∧ c.nodeType? n = some x

lemma ensures_alloc (hc : c.WellFormed) (h : c.Knows shape) :
    Ensures Leads E (alloc shape) c fun x c' => x < c'.types.size :=
  .of_runs (fun _ => rfl) (.op hc (.alloc shape) h) (by simp)

lemma ensures_assign (hc : c.WellFormed) {target : Slot} (ht : target < c.types.size)
    (hs : source < c.types.size) : Ensures Leads E (assign target source) c fun _ _ => True :=
  .of_runs (a := ()) (fun A => runs_modify.mpr (assign_at ht hs A))
    (.op hc (.assign target source) ⟨ht, hs⟩)
    trivial

lemma ensures_slotOf (hc : c.WellFormed) (n : NodeId) :
    Ensures Leads E (slotOf n) c (Gives n) := by
  have hleads := Leads.op hc (.slotOf n) trivial
  have hn : (c.slotOf n).2.nodeType? n = some (c.slotOf n).1 := nodeType?_of_slotOf rfl
  exact .of_runs (fun _ => rfl) hleads ⟨hleads.wellFormed.nodeTypes n _ hn, hn⟩

lemma ensures_bind (hc : c.WellFormed) (n : NodeId) (h : source < c.types.size) :
    Ensures Leads E (bind n source) c (Gives n) := by
  have hleads := Leads.op hc (.bind n source) h
  have hn : (c.bind n source).2.nodeType? n = some (c.bind n source).1 := nodeType?_of_bind rfl
  exact .of_runs (fun A => runs_modifyGet.mpr (hc.bind_at h A)) hleads
    ⟨hleads.wellFormed.nodeTypes n _ hn, hn⟩

lemma ensures_setShape (hc : c.WellFormed) (n : NodeId) (h : c.Knows shape) :
    Ensures Leads E (setShape n shape) c (Gives n) := by
  have hleads := Leads.op hc (.setShape n shape) h
  have hn : (c.setShape n shape).2.nodeType? n = some (c.setShape n shape).1 :=
    nodeType?_of_setShape rfl
  exact .of_runs (fun A => runs_modifyGet.mpr (hc.setShape_at shape A)) hleads
    ⟨hleads.wellFormed.nodeTypes n _ hn, hn⟩

/-- A node gets a copy of what is in a slot. -/
lemma ensures_copy (hc : c.WellFormed) (n : NodeId) (h : source < c.types.size) :
    Ensures Leads E (do
      let s ← slotOf n
      assign s source
      return s) c (Gives n) := by
  refine (ensures_slotOf hc n).bind fun x c1 h1 hx => ?_
  refine (ensures_assign h1.wellFormed hx.1 (h1.lt h)).bind fun _ c2 h2 _ => ?_
  exact .pure (.refl h2.wellFormed) ⟨h2.lt hx.1, h2.steps.onward.nodeType n x hx.2⟩

/-- Declaring a name fails only if the name is taken, or outside of all scopes. -/
lemma ensures_declare [Cause.Permitted E] (hc : c.WellFormed) (name : String) (kind : SymbolKind)
    (d : NodeId) (l : Location) (h : E (.scopeNotFound d) ∨ c.current? ≠ none) :
    Ensures Leads E (declare name kind d l) c fun _ _ => True := by
  refine ⟨?_, fun _ _ _ => trivial, fun f c' hf => ?_, hc.declare_at name kind d l⟩
  · have hleads := Leads.op hc (.declare name kind d l) trivial
    rwa [Op.run, outcome_map] at hleads
  · rw [outcome_declare, addSymbol, outcome_bind, outcome_get] at hf
    dsimp only at hf
    split at hf
    · split at hf
      · cases hf
      · cases hf
        exact Cause.Permitted.redeclared _ _
    · next hnone =>
      cases hf
      exact h.resolve_right fun hsome => hsome (Option.eq_none_iff_forall_ne_some.mpr hnone)

end Check

namespace ScopeMode

variable {E : Cause → Prop} {c : Context} {mode : ScopeMode} {kind : ScopeKind} {node : Node}

/-- Entering a scope fails only where one has to be there already and is not. -/
lemma ensures_enter (hc : c.WellFormed) {n : NodeId} {l : Location}
    (h : E (.scopeNotFound n) ∨ mode.mustReopen c kind = false ∨ c.scopeOf? n ≠ none) :
    Ensures Leads E (mode.enter kind n l) c fun _ c' =>
      mode ≠ skip → c'.current? ≠ none ∧ c'.scopeOf? n ≠ none := by
  have hleads : Leads c ((mode.enter kind n l).outcome c).2 := by
    have hleads := Leads.op hc (.enter mode kind n l) trivial
    rwa [Op.run, outcome_map] at hleads
  refine ⟨hleads, fun _ c' hr hmode => ?_, fun f c' hf => ?_, hc.enter_at mode kind n l⟩
  · have hr : (mode.enter kind n l).outcome c = (.ok _, c') := hr
    rw [outcome_enter, if_neg hmode] at hr
    split at hr
    · split at hr
      · next id hid =>
        cases hr
        exact ⟨by simp [current?], fun hnone => by cases hid.symm.trans hnone⟩
      · cases hr
    · cases hr
      refine ⟨by simp [current?, openScope], ?_⟩
      change (c.nodeScopes.insert n c.scopes.size).get? n ≠ none
      simp
  · rw [outcome_enter] at hf
    split at hf
    · cases hf
    · split at hf
      · next hre =>
        split at hf
        · cases hf
        · next hnone =>
          -- the node has no scope to be opened again
          cases hf
          rcases h with h | h | h
          · exact h
          · rw [h] at hre
            cases hre
          · exact absurd hnone h
      · cases hf

lemma leads_leave (hc : c.WellFormed) (mode : ScopeMode) : Leads c (mode.leave c) :=
  Leads.op hc (.leave mode) trivial

end ScopeMode

/-! ### Inference -/

namespace Infer

variable {E : Cause → Prop} {c : Context}

lemma ensures_shorthand [Cause.Regular E] (hc : c.WellFormed) (node : Node) (item : String)
    {expected : Slot} (hx : expected < c.types.size) :
    Ensures Leads E (shorthand node item expected) c fun _ _ => True := by
  have hassign : Ensures Leads E (do
      let s ← Check.slotOf node.id
      Check.assign s expected) c fun _ _ => True :=
    (Check.ensures_slotOf hc _).bind fun s c1 h1 hs =>
      Check.ensures_assign h1.wellFormed hs.1 (h1.lt hx)
  refine Check.ensures_types ?_
  simp only [hc.type_at hx]
  split
  · next items h =>
    simp only [hc.hasItem_at (x := expected) items (by simp [h, Shape.handles,
      Shape.components, Shape.nominalHandles])]
    split
    · exact hassign
    · exact .fail (.refl hc) (ordinary rfl)
  · next items h =>
    simp only [hc.hasItem_at (x := expected) items (by simp [h, Shape.handles,
      Shape.components, Shape.nominalHandles])]
    split
    · exact hassign
    · exact .fail (.refl hc) (ordinary rfl)
  · exact .fail (.refl hc) (ordinary rfl)

mutual

/-- **Inference** stores existing types in the slots of the value. -/
lemma ensures_expr [Cause.Regular E] : ∀ (e : Expr) {expected : Slot} {c : Context},
    c.WellFormed → expected < c.types.size →
      Ensures Leads E (expr expected e) c fun _ _ => True
  | .array node elements, expected, c, hc, hx => by
    unfold expr
    refine Check.ensures_types ?_
    simp only [hc.type_at hx]
    refine (Check.ensures_slotOf hc _).bind fun literal c1 h1 hl => Check.ensures_types ?_
    simp only [h1.wellFormed.type_at hl.1, h1.wellFormed.type_at (h1.lt (hc.unwrapped_lt hx))]
    split
    · exact .pure (.refl h1.wellFormed) trivial
    · next element helement =>
      have he := h1.wellFormed.argument_lt helement
      split
      · exact .fail (.refl h1.wellFormed) (ordinary rfl)
      · next wanted hwanted =>
        have hw := h1.wellFormed.argument_lt hwanted
        refine (ensures_exprs elements h1.wellFormed hw).bind fun _ c2 h2 _ => ?_
        refine Check.ensures_types ?_
        simp only [h2.wellFormed.type_at (h2.lt he)]
        split
        · exact Check.ensures_assign h2.wellFormed (h2.lt he) (h2.lt hw)
        · exact .pure (.refl h2.wellFormed) trivial
  | .record node values, expected, c, hc, hx => by
    unfold expr
    have hw := hc.unwrapped_lt hx
    refine Check.ensures_types ?_
    simp only [hc.type_at hx, hc.type_at hw]
    split
    · next types htypes =>
      refine ensures_fields _ types values hc hw fun f hf => ?_
      refine hc.component_lt (x := c.types.unwrapped expected) ?_
      rw [htypes]
      exact List.mem_map_of_mem hf
    · exact .fail (.refl hc) (ordinary rfl)
  | .shorthand node item, expected, c, hc, hx => by
    refine Check.ensures_types ?_
    simp only [hc.type_at hx]
    exact ensures_shorthand hc node item.name (hc.unwrapped_lt hx)
  | .literal node .null, expected, c, hc, hx =>
    (Check.ensures_slotOf hc _).bind fun _ _ h1 hs =>
      Check.ensures_assign h1.wellFormed hs.1 (h1.lt hx)
  | .binary _ _ left right, expected, c, hc, hx => by
    unfold expr
    refine (Check.ensures_slotOf hc _).bind fun l c1 h1 hl => ?_
    refine (Check.ensures_slotOf h1.wellFormed _).bind fun r c2 h2 hr => ?_
    refine Check.ensures_types ?_
    simp only [h2.wellFormed.type_at (h2.lt hl.1), h2.wellFormed.type_at hr.1]
    split
    · exact ensures_expr left h2.wellFormed hr.1
    · exact ensures_expr right h2.wellFormed (h2.lt hl.1)
    · exact .pure (.refl h2.wellFormed) trivial
  | .literal _ (.integer _), _, _, hc, _ | .literal _ (.float _), _, _, hc, _
  | .literal _ (.string _), _, _, hc, _ | .literal _ (.boolean _), _, _, hc, _
  | .identifier _, _, _, hc, _ | .self _, _, _, hc, _ | .super _, _, _, hc, _
  | .call .., _, _, hc, _ | .unary .., _, _, hc, _ | .member .., _, _, hc, _
  | .index .., _, _, hc, _ | .assign .., _, _, hc, _ => .pure (.refl hc) trivial

lemma ensures_exprs [Cause.Regular E] : ∀ (es : List Expr) {expected : Slot} {c : Context},
    c.WellFormed → expected < c.types.size →
      Ensures Leads E (exprs expected es) c fun _ _ => True
  | [], _, _, hc, _ => .pure (.refl hc) trivial
  | e :: rest, _, _, hc, hx =>
    (ensures_expr e hc hx).bind fun _ _ h1 _ => ensures_exprs rest h1.wellFormed (h1.lt hx)

lemma ensures_fields [Cause.Regular E] (record : Slot) (types : List (String × Slot)) :
    ∀ (values : List FieldValue) {c : Context}, c.WellFormed → record < c.types.size →
      (∀ f ∈ types, f.2 < c.types.size) →
        Ensures Leads E (fields record types values) c fun _ _ => True
  | [], _, hc, _, _ => .pure (.refl hc) trivial
  | ⟨node, name, value⟩ :: rest, c, hc, hr, htypes => by
    unfold fields
    dsimp only
    split
    · next type htype =>
      obtain ⟨l, r, rfl, -⟩ := List.lookup_eq_some_iff.mp htype
      refine (ensures_expr value hc (htypes (name.name, type) (by simp))).bind fun _ c1 h1 _ => ?_
      exact ensures_fields record _ rest h1.wellFormed (h1.lt hr) fun f hf => h1.lt (htypes f hf)
    · refine Check.ensures_display ?_
      simp only [hc.type_at hr]
      exact (Ensures.fail (Q := fun _ _ => False) (.refl hc) (ordinary rfl)).bind
        fun _ _ _ h => h.elim

end

end Infer

lemma ensures_checkAssignable {E : Cause → Prop} [Cause.Regular E] {c : Context}
    (hc : c.WellFormed) {target found : Slot} (ht : target < c.types.size) (value : Expr)
    (hf : found < c.types.size) (site : Site) :
    Ensures Leads E (checkAssignable target value found site) c fun _ _ => True := by
  have hrest : ∀ {c1 : Context}, Leads c c1 → Ensures Leads E (do
      let t ← Check.types
      if t.isIncomplete target || t.isIncomplete found || t.fits target found then return
      fail (.mismatch (t.display target) (t.display found) site) value.node.location) c1
      fun _ _ => True := by
    intro c1 h1
    have ht1 := h1.lt ht
    have hf1 := h1.lt hf
    refine Check.ensures_types ?_
    simp only [h1.wellFormed.type_at ht1, h1.wellFormed.type_at hf1, h1.wellFormed.fits_at ht1 hf1]
    split
    · exact .pure (.refl h1.wellFormed) trivial
    · exact .fail (.refl h1.wellFormed) (ordinary rfl)
  refine Check.ensures_types ?_
  simp only [hc.type_at ht, hc.type_at hf]
  split
  · exact (Infer.ensures_expr value hc ht).bind fun _ _ h1 _ => hrest h1
  · exact hrest (.refl hc)

/-! ### Expression rules -/

namespace Resolve

variable {E : Cause → Prop} {c : Context} {l r s : Slot}

/-- The name of a type as an operand is typed with it. -/
lemma ensures_typeName (hc : c.WellFormed) (e : Expr) :
    Ensures Leads E (typeName e) c fun x c' =>
      ∀ y, x = some y → y < c'.types.size ∧ c'.Typed e.nodes := by
  unfold typeName
  split
  · next name =>
    refine .get_bind ?_
    simp only [hc.lookup?_at, hc.declarationOf?_at]
    split
    · next declaration _ _ =>
      refine (Check.ensures_slotOf hc _).bind fun d c1 h1 hd => ?_
      refine (Check.ensures_bind h1.wellFormed name.id hd.1).map fun x c2 hx y hy => ?_
      cases hy
      exact ⟨hx.1, .cons hx.2 .nil⟩
    · exact .pure (.refl hc) (by simp)
  · exact .pure (.refl hc) (by simp)

lemma ensures_enclosingClass [Cause.Regular E] (hc : c.WellFormed) (keyword : String)
    (l : Location) :
    Ensures Leads E (enclosingClass keyword l) c fun _ _ => True := by
  refine .get_bind ?_
  simp only [hc.enclosingScope_at]
  split
  · exact .pure (.refl hc) trivial
  · exact .fail (.refl hc) (ordinary rfl)

lemma ensures_selfRule [Cause.Regular E] (hc : c.WellFormed) (node : Node) :
    Ensures Leads E (selfRule node) c (Check.Gives node.id) :=
  (ensures_enclosingClass hc _ _).bind fun _ _ h1 _ =>
    (Check.ensures_slotOf h1.wellFormed _).bind fun _ _ h2 hs =>
      Check.ensures_bind h2.wellFormed _ hs.1

lemma ensures_superRule [Cause.Regular E] (hc : c.WellFormed) (node : Node) :
    Ensures Leads E (superRule node) c (Check.Gives node.id) := by
  refine (ensures_enclosingClass hc _ _).bind fun n c1 h1 _ => ?_
  refine (Check.ensures_slotOf h1.wellFormed n).bind fun s c2 h2 hs => Check.ensures_types ?_
  simp only [h2.wellFormed.type_at hs.1]
  split
  · next base hbase => exact Check.ensures_bind h2.wellFormed _ (h2.wellFormed.base?_lt hbase)
  · refine Check.ensures_display ?_
    simp only [h2.wellFormed.type_at hs.1]
    exact .fail (.refl h2.wellFormed) (ordinary rfl)

/-- A call brings as many arguments as the callee has parameters. -/
lemma ensures_callParameters [Cause.Regular E] (hc : c.WellFormed) (node : Node) (callee : Expr)
    (arguments : List Expr) (hs : s < c.types.size) (isType : Bool) :
    Ensures Leads E (callParameters node callee arguments.length s isType) c fun ps c' =>
      (ps = none → arguments = []) ∧ ∀ parameters, ps = some parameters →
        parameters.length = arguments.length ∧ ∀ f ∈ parameters, f.2 < c'.types.size := by
  refine Check.ensures_types ?_
  simp only [hc.type_at hs]
  split
  · refine .refuse (.refl hc) (ordinary rfl) fun hnone => .pure (.refl hc) ⟨fun _ => ?_, by simp⟩
    simpa using hnone
  · next returns parameters hshape =>
    refine .refuse (.refl hc) (ordinary rfl) fun hlen => .pure (.refl hc) ⟨by simp, ?_⟩
    rintro _ ⟨⟩
    refine ⟨not_not.mp hlen, fun f hf => hc.component_lt (x := s) ?_⟩
    rw [hshape]
    exact List.mem_cons_of_mem _ (List.mem_map_of_mem hf)
  · exact .fail (.refl hc) (ordinary rfl)

lemma ensures_inferOperands [Cause.Regular E] (hc : c.WellFormed) (left right : Expr)
    (hl : l < c.types.size) (hr : r < c.types.size) :
    Ensures Leads E (inferOperands left right l r) c fun _ _ => True := by
  refine Check.ensures_types ?_
  simp only [hc.type_at hl, hc.type_at hr]
  split
  · exact Infer.ensures_expr left hc (hc.valueOf_lt hr)
  · split
    · exact Infer.ensures_expr right hc (hc.valueOf_lt hl)
    · exact .pure (.refl hc) trivial

lemma ensures_checkOperands [Cause.Regular E] (hc : c.WellFormed) (op : BinaryOp)
    (left right : Expr) {lv rv : Slot} (hl : l < c.types.size) (hr : r < c.types.size)
    (hlv : lv < c.types.size) (hrv : rv < c.types.size) :
    Ensures Leads E (checkOperands op left right l r lv rv) c fun _ _ => True := by
  refine Check.ensures_types ?_
  simp only [hc.type_at hl, hc.type_at hr, hc.type_at hlv, hc.type_at hrv, hc.holds_at _ hl hr]
  split
  · exact .pure (.refl hc) trivial
  · refine .refuse (.refl hc) (ordinary rfl) fun _ => ?_
    split
    · exact .fail (.refl hc) (ordinary rfl)
    · exact .pure (.refl hc) trivial

lemma ensures_binaryRule [Cause.Regular E] (hc : c.WellFormed) (node : Node) (op : BinaryOp)
    (left right : Expr) (hl : l < c.types.size) (hr : r < c.types.size) :
    Ensures Leads E (binaryRule node op left right l r) c (Check.Gives node.id) := by
  have hlv := hc.valueOf_lt hl
  have hrv := hc.valueOf_lt hr
  refine Check.ensures_types ?_
  simp only [hc.type_at hl, hc.type_at hr, hc.type_at hlv, hc.type_at hrv]
  refine .refuse (.refl hc) (ordinary rfl) fun _ => ?_
  split
  · refine Check.ensures_types ?_
    simp only [hc.type_at hl, hc.type_at hr, hc.type_at hlv, hc.type_at hrv, hc.holds_at _ hlv hrv]
    refine .refuse (.refl hc) (ordinary rfl) fun _ => ?_
    exact Check.ensures_setShape hc _ (.leaf rfl rfl)
  · refine (ensures_inferOperands hc left right hl hr).bind fun _ c1 h1 _ => ?_
    refine (ensures_checkOperands h1.wellFormed _ _ _ (h1.lt hl) (h1.lt hr) (h1.lt hlv)
      (h1.lt hrv)).bind fun _ c2 h2 _ => ?_
    split
    · exact Check.ensures_setShape h2.wellFormed _ (.leaf rfl rfl)
    · exact Check.ensures_copy h2.wellFormed _ (h2.lt (h1.lt hlv))

lemma ensures_unaryRule [Cause.Regular E] (hc : c.WellFormed) (node : Node) (op : UnaryOp)
    (operand : Expr) (hs : s < c.types.size) :
    Ensures Leads E (unaryRule node op operand s) c (Check.Gives node.id) := by
  have hv := hc.valueOf_lt hs
  refine Check.ensures_types ?_
  simp only [hc.type_at hs, hc.type_at hv]
  cases op with
  | neg => exact .refuse (.refl hc) (ordinary rfl) fun _ => Check.ensures_copy hc _ hv
  | not =>
    exact .refuse (.refl hc) (ordinary rfl) fun _ => Check.ensures_setShape hc _ (.leaf rfl rfl)

lemma ensures_itemRule [Cause.Regular E] (hc : c.WellFormed) (node : Node) (name : Ident)
    (hs : s < c.types.size) : Ensures Leads E (itemRule node name s) c (Check.Gives node.id) := by
  refine Check.ensures_types ?_
  simp only [hc.type_at hs]
  split
  · next items h =>
    simp only [hc.hasItem_at (x := s) items (by simp [h, Shape.handles, Shape.components,
      Shape.nominalHandles])]
    split
    · exact Check.ensures_bind hc _ hs
    · exact .fail (.refl hc) (ordinary rfl)
  · exact .fail (.refl hc) (ordinary rfl)

lemma ensures_indexRule [Cause.Regular E] (hc : c.WellFormed) (node : Node)
    (array position : Expr) {a p : Slot} (ha : a < c.types.size) (hp : p < c.types.size) :
    Ensures Leads E (indexRule node array position a p) c (Check.Gives node.id) := by
  refine Check.ensures_types ?_
  simp only [hc.type_at ha, hc.type_at hp]
  split
  · split
    · exact Check.ensures_slotOf hc _
    · exact .fail (.refl hc) (ordinary rfl)
  · next element helement =>
    exact .refuse (.refl hc) (ordinary rfl) fun _ =>
      Check.ensures_bind hc _ (hc.argument_lt helement)

lemma ensures_assignRule [Cause.Regular E] (hc : c.WellFormed) (node : Node) (value : Expr)
    {target v : Slot} (ht : target < c.types.size) (hv : v < c.types.size) :
    Ensures Leads E (assignRule node value target v) c (Check.Gives node.id) := by
  refine Check.ensures_types ?_
  simp only [hc.type_at ht, hc.type_at hv]
  refine .refuse (.refl hc) (ordinary rfl) fun _ => ?_
  exact (ensures_checkAssignable hc ht value hv _).bind fun _ _ h1 _ =>
    Check.ensures_bind h1.wellFormed _ (h1.lt hv)

lemma ensures_checkElements [Cause.Regular E] {anchor : Slot} :
    ∀ (i : Nat) (es : List (Expr × Slot)) {c : Context}, c.WellFormed → anchor < c.types.size →
      (∀ p ∈ es, p.2 < c.types.size) →
        Ensures Leads E (checkElements anchor i es) c fun _ _ => True
  | _, [], _, hc, _, _ => .pure (.refl hc) trivial
  | i, (e, s) :: rest, c, hc, ha, hes => by
    obtain ⟨hs, hrest⟩ := List.forall_mem_cons.mp hes
    refine Check.ensures_types ?_
    simp only [hc.type_at ha, hc.type_at hs, hc.fits_at ha hs]
    split
    · exact (Infer.ensures_expr e hc ha).bind fun _ _ h1 _ =>
        ensures_checkElements (i + 1) rest h1.wellFormed (h1.lt ha) fun p hp => h1.lt (hrest p hp)
    · exact .refuse (.refl hc) (ordinary rfl) fun _ =>
        ensures_checkElements (i + 1) rest hc ha hrest

lemma ensures_arrayRule [Cause.Regular E] (hc : c.WellFormed) (node : Node)
    (elements : List Expr) {slots : List Slot} (hs : ∀ y ∈ slots, y < c.types.size) :
    Ensures Leads E (arrayRule node elements slots) c (Check.Gives node.id) := by
  have hset : ∀ {c1 : Context} {element : Slot}, c1.WellFormed → element < c1.types.size →
      Ensures Leads E (Check.setShape node.id (.generic Shape.arrayName [element])) c1
        (Check.Gives node.id) := fun h1 he =>
    Check.ensures_setShape h1 _ ⟨by simpa [Shape.handles, Shape.components, Shape.nominalHandles],
      by simp [Shape.scope?]⟩
  have hfind : ∀ A : Access, (slots.find? fun s => !@TypeStore.isIncomplete A c.types s) =
      slots.find? fun s => !@TypeStore.isIncomplete .usual c.types s := fun A =>
    List.find?_congr fun s hmem => by rw [hc.isIncomplete_at (hs s hmem)]
  refine Check.ensures_types ?_
  simp only [hfind]
  split
  · next anchor hanchor =>
    have ha := hs anchor (List.mem_of_find?_eq_some hanchor)
    refine (ensures_checkElements 0 _ hc ha fun p hp => hs _ (List.of_mem_zip hp).2).bind
      fun _ c1 h1 _ => Check.ensures_types ?_
    simp only [h1.wellFormed.type_at (h1.lt ha)]
    refine (Check.ensures_alloc h1.wellFormed (h1.wellFormed.knows anchor)).bind
      fun _ c2 h2 he => ?_
    exact hset h2.wellFormed he
  · exact (Check.ensures_alloc hc (.leaf rfl rfl)).bind fun _ c1 h1 he => hset h1.wellFormed he

end Resolve

end Sema
