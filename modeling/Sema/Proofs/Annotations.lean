import Sema.Proofs.Printed
import Sema.Proofs.Returns

/-!
Annotations are displayed as they are written. The nodes of signatures hold their layers when the
walk over variables and bodies begins. The walk leaves them as they are, up to which of two classes
or enums of one name is meant, and this cannot be seen in the text. Local variables get the layers
of their annotations when the walk comes to them.
-/

namespace Sema

open Sema.Action Context

/-! ### The annotations of a program -/

/-- An annotation that may be left out, with all annotations in it. -/
def TypeExpr.all? (type : Option TypeExpr) : List TypeExpr :=
  type.elim [] TypeExpr.all

lemma TypeExpr.layers?_subset (early : Bool) {type : Option TypeExpr} :
    ∀ part ∈ TypeExpr.all? type, part.layers early ⊆ TypeExpr.layers? early type := by
  cases type with
  | none => exact List.forall_mem_nil _
  | some type => exact TypeExpr.layers_subset early

namespace Decl

/-- The annotations in the signature of a declaration, at any depth. -/
def annotations : Decl → List TypeExpr
  | .object c => TypeExpr.all? c.base
  | .function f => f.parameters.flatMap (·.type.all) ++ TypeExpr.all? f.returns
  | .var v => TypeExpr.all? v.type
  | .enum e => EnumItem.allOf e.items
  | .foreign f => f.parameters.flatMap (·.type.all) ++ TypeExpr.all? f.returns

@[simp] lemma annotations_hoist (d : Decl) : d.hoist.annotations = d.annotations := by
  rcases d with ⟨⟨_, _, _, _⟩⟩ | _ | _ | _ | _ <;> rfl

@[simp] lemma locals_hoist (d : Decl) : d.hoist.locals = d.locals := by
  rcases d with ⟨⟨_, _, _, _⟩⟩ | _ | _ | _ | _ <;> rfl

/-- Whether the signature is resolved once and for all when the declaration is collected. -/
def isEarly : Decl → Bool
  | .foreign _ => true
  | .object _ | .function _ | .var _ | .enum _ => false

lemma layers_of_signature_subset (early : Bool) {parameters : List Parameter}
    {returns : Option TypeExpr} :
    ∀ type ∈ parameters.flatMap (·.type.all) ++ TypeExpr.all? returns, type.layers early ⊆
      parameters.flatMap (Parameter.layers early) ++ TypeExpr.layers? early returns := by
  refine List.forall_mem_append.mpr ⟨fun type htype => ?_, fun type htype => ?_⟩
  · obtain ⟨p, hp, htype⟩ := List.mem_flatMap.mp htype
    intro l hl
    refine List.mem_append_left _ (List.mem_flatMap.mpr ⟨p, hp, List.mem_cons_of_mem _ ?_⟩)
    exact TypeExpr.layers_subset early type htype hl
  · exact List.subset_append_of_subset_right _ (TypeExpr.layers?_subset early type htype)

/-- The layers of the annotations in a signature are known when signatures have been resolved. -/
lemma layers_subset {d : Decl} :
    ∀ type ∈ d.annotations, type.layers d.isEarly ⊆ d.heads ++ d.annotated := by
  intro type htype
  cases d with
  | object c =>
    exact List.subset_append_of_subset_right _ (TypeExpr.layers?_subset false type htype)
  | function f =>
    exact List.subset_append_of_subset_right _ (layers_of_signature_subset false type htype)
  | var v =>
    rcases v with ⟨_, _, _ | written, _⟩
    · cases htype
    · exact List.subset_cons_of_subset _ (TypeExpr.layers_subset false type htype)
  | enum e =>
    exact List.subset_append_of_subset_right _ (EnumItem.layersAll_subset false type htype)
  | foreign f =>
    exact List.subset_append_of_subset_left _
      (List.subset_cons_of_subset _ (layers_of_signature_subset true type htype))

end Decl

namespace Program

variable {p p' : Program} {type : TypeExpr}

/-- All annotations of a program, at any depth: in signatures, and those of the variables in
functions and among the loose statements. -/
def annotations (p : Program) : List TypeExpr :=
  p.allDecls.flatMap Decl.annotations ++
    (p.locals ++ Stmt.localsAll p.statements).flatMap fun v => TypeExpr.all? v.type

lemma mem_annotations : type ∈ p.annotations ↔
    (∃ d ∈ p.allDecls, type ∈ d.annotations) ∨
      ∃ v, ((∃ d ∈ p.allDecls, v ∈ d.locals) ∨ v ∈ Stmt.localsAll p.statements) ∧
        type ∈ TypeExpr.all? v.type := by
  simp only [annotations, locals, List.mem_append, List.mem_flatMap]

lemma mem_annotations_hoist (h : type ∈ p.annotations) : type ∈ p.hoist.annotations := by
  have hmem : ∀ d ∈ p.allDecls, d.hoist ∈ p.hoist.allDecls := fun d hd =>
    p.allDecls_hoist.mem_iff.mpr (List.mem_map_of_mem hd)
  rcases mem_annotations.mp h with ⟨d, hd, htype⟩ | ⟨v, ⟨d, hd, hv⟩ | hv, htype⟩ <;>
    apply mem_annotations.mpr
  · exact .inl ⟨_, hmem d hd, by rwa [Decl.annotations_hoist]⟩
  · exact .inr ⟨v, .inl ⟨_, hmem d hd, by rwa [Decl.locals_hoist]⟩, htype⟩
  · exact .inr ⟨v, .inr hv, htype⟩

/-- The loose statements become the body of the entry point, and no annotation is lost. -/
lemma mem_annotations_withEntryPoint (h : p.withEntryPoint = .ok p')
    (htype : type ∈ p.annotations) : type ∈ p'.annotations := by
  rcases withEntryPoint_cases h with ⟨rfl, -⟩ | rfl
  · exact htype
  have hmem : ∀ d ∈ p.allDecls, d ∈ Decl.allOf (p.declarations ++ [.function p.entryPoint]) :=
    fun d hd => by
      rw [p.allOf_entryPoint]
      exact List.mem_append_left _ hd
  rcases mem_annotations.mp htype with ⟨d, hd, htype⟩ | ⟨v, ⟨d, hd, hv⟩ | hv, htype⟩ <;>
    apply mem_annotations.mpr
  · exact .inl ⟨d, hmem d hd, htype⟩
  · exact .inr ⟨v, .inl ⟨d, hmem d hd, hv⟩, htype⟩
  · refine .inr ⟨v, .inl ⟨.function p.entryPoint, ?_, hv⟩, htype⟩
    change _ ∈ Decl.allOf _
    rw [p.allOf_entryPoint]
    exact List.mem_append_right _ List.mem_cons_self

end Program

/-! ### Signatures at the end of the walk -/

/-- The node of a layer of an annotation is none of a class or an enum. -/
lemma Layer.Suits.exists_tag {L : List (NodeId × Tag)} {n : NodeId} {early : Bool} {layer : Layer}
    (h : layer.Suits L n) (hw : layer.isWritten early = true) :
    ∃ tag, (n, tag) ∈ L ∧ tag.isType = false := by
  cases layer with
  | copy | object | enum => cases hw
  | _ => exact ⟨_, h, rfl⟩

namespace Resolving.Footing

variable {G : Groundwork} {early : Bool} {s : Resolving} {type : TypeExpr}

/-- An annotation that is not that of a variable keeps its layers. -/
lemma signed (h : Footing G s) (hr : G.r)
    (hn : ∀ n x, G.start.nodeType? n = some x → s.nodeType? n = some x)
    (hsigned : Signed G.layout (type.layers early) G.start)
    (hvar : ∀ p ∈ type.layers early, ∀ v ∈ G.vars, p.1 ∉ v.id :: TypeExpr.nodes? v.type) :
    Signed G.layout (type.layers early) s.toContext := by
  have htag : ∀ p ∈ type.layers early, ∃ tag, (p.1, tag) ∈ G.layout ∧ tag.isType = false := by
    intro p hp
    obtain ⟨_, -, hsuits, -⟩ := hsigned p hp
    exact Layer.Suits.exists_tag hsuits (TypeExpr.isWritten_layers early p hp)
  refine hsigned.kept hn h.nodes (fun name y hy => h.type_stays hr hy) (fun p hp name hname => ?_)
    (fun p hp m hm x hx => ?_) fun p _ x r ps _ _ hresult => ?_
  · obtain ⟨tag, hmem, htype⟩ := htag p hp
    cases G.arranged.tag_unique hmem hname
    cases htype
  · rw [Layer.sources_of_isWritten (TypeExpr.isWritten_layers early p hp),
      List.mem_singleton] at hm
    subst hm
    obtain ⟨tag, hmem, -⟩ := htag p hp
    exact h.key_stays hr (mem_keys hmem) (hvar p hp) hx
  · -- a result that is not written is in the slot of no node, so no variable owns it
    obtain ⟨hvoid, hfree⟩ := hresult
    have hlt : r < G.size := Nat.not_le.mp fun hle => by
      cases hvoid.symm.trans (TypeStore.get_eq_unknown _ hle)
    have hstays := h.stays hr hlt fun v hv ⟨n, hn, hnr, _⟩ => hfree n (G.key hv hn) hnr
    exact (hstays.eq_of_plain (by rw [hvoid]; rfl)).trans hvoid

end Resolving.Footing

namespace Context

/-- The annotation has a type, which is not part of itself, and that is displayed as the annotation
is written. -/
def Shows (c : Context) (type : TypeExpr) : Prop :=
  ∃ x, c.nodeType? type.node.id = some x ∧ c.types.Prints x type.print

lemma Signed.shows {L : List (NodeId × Tag)} {early : Bool} {c : Context}
    {type : TypeExpr} (h : Signed L (type.layers early) c) (hn : c.Named L) : c.Shows type := by
  obtain ⟨x, hx, -⟩ := h _ (type.head_mem early)
  exact ⟨x, hx, prints_of_signed hn h hx⟩

end Context

namespace Resolve

open Resolving

variable {p : Program} {plan : Plan} {mode : ScopeMode} {s s' : Resolving}

lemma Starts.signed (h : Starts p plan s) {d : Decl} (hd : d ∈ p.allDecls) :
    Signed p.layout (d.heads ++ d.annotated) s.toContext :=
  List.forall_mem_append.mpr
    ⟨fun l hl => h.heads l (List.mem_flatMap.mpr ⟨d, hd, hl⟩),
      fun l hl => h.annotated l (List.mem_flatMap.mpr ⟨d, hd, hl⟩)⟩

/-- At the end of the walk the annotations of signatures have the layers that they began with. -/
lemma Starts.signed_end (h : Starts p plan s) (hp : p.Numbered) {ns : List NodeId}
    (ha : Advances (h.groundwork hp) ns s s') {d : Decl} (hd : d ∈ p.allDecls) {type : TypeExpr}
    (htype : type ∈ d.annotations) :
    Signed p.layout (type.layers d.isEarly) s'.toContext := by
  have hsub := Decl.layers_subset type htype
  by_cases hvar : ∃ v, d = .var v
  · obtain ⟨v, rfl⟩ := hvar
    have hlettered : Lettered (h.groundwork hp) s := fun w hw =>
      h.signed (Program.mem_variables.mp hw)
    exact fun l hl => ha.lettered trivial hlettered v (Program.mem_variables.mpr hd) l (hsub hl)
  · have htype : Signed p.layout (type.layers d.isEarly) s.toContext := fun l hl =>
      h.signed hd l (hsub hl)
    refine ha.footing.signed trivial ha.nodeType htype fun l hl v hv hm => ?_
    have hmem : l.1 ∈ d.signature := by
      rcases List.mem_append.mp (hsub hl) with hl | hl
      · exact (d.confined_heads l hl).1
      · exact d.written_sublist.subset (d.confined_annotated l hl).1
    exact hp.signatures_apart hd (Program.mem_variables.mp hv) (fun heq => hvar ⟨v, heq⟩) hmem hm

/-- **Annotations are displayed as they are written**, at the end of the walk. -/
lemma Starts.shows (h : Starts p plan s) (hp : p.Numbered)
    (hr : Runs (decls mode plan p.declarations) s () s') (hstatements : p.statements = []) :
    ∀ type ∈ p.annotations, s'.Shows type := by
  obtain ⟨ha, hlocals, -⟩ := h.walked hp (fun _ => h.named) hr
  have hnamed : s'.Named p.layout := ha.footing.named trivial
  intro type htype
  rw [Program.mem_annotations, hstatements] at htype
  rcases htype with ⟨d, hd, htype⟩ | ⟨v, ⟨d, hd, hv⟩ | hv, htype⟩
  · exact (h.signed_end hp ha hd htype).shows hnamed
  · obtain ⟨-, -, hsigned, -⟩ := (hlocals v (List.mem_flatMap.mpr ⟨d, hd, hv⟩)).inscribed trivial
    have hpart : Signed _ (type.layers true) s'.toContext := fun l hl =>
      hsigned l (TypeExpr.layers?_subset true type htype hl)
    exact hpart.shows fun d name hd => hnamed d name (mem_layout_of_type hd)
  · cases hv

end Resolve

/-! ### Accepted programs -/

namespace Analysis

variable {p : Program} {a : Analysis}

/-- **Annotations round-trip through display.** In an accepted program every annotation, at any
depth, has a type that is not part of itself, and this is displayed as the annotation is written, in
the canonical form. In particular nothing of it is cut short: the text has no dots but those of
names. -/
theorem annotation_displays_as_written (hp : p.FullyNumbered) (h : Analysis.standard p = .ok a) :
    ∀ type ∈ p.annotations, ∃ x, a.context.nodeType? type.node.id = some x ∧
      a.context.types.Finite x ∧ a.context.types.display x = type.print ∧
      ((∀ name ∈ type.names, Dotless name) → Dotless (a.context.types.display x)) := by
  obtain ⟨c1, c2, hacc⟩ := accepts_of_standard h
  have hnum : a.program.FullyNumbered := hp.hoist.withEntryPoint hacc.arranged
  obtain ⟨plan, s, s', hstarts, -, hdecls, rfl⟩ :=
    Resolve.starts_of_program hnum hacc.collect hacc.resolve
  obtain ⟨g, hg⟩ := hacc.context
  have hstatements : a.program.statements = [] := Program.statements_withEntryPoint hacc.arranged
  intro type htype
  have hmem : type ∈ a.program.annotations :=
    Program.mem_annotations_withEntryPoint hacc.arranged (Program.mem_annotations_hoist htype)
  obtain ⟨x, hx, hfinite, hdisplay⟩ := hstarts.shows hnum.toNumbered hdecls hstatements type hmem
  rw [hg]
  exact ⟨x, hx, hfinite, hdisplay, fun hnames => by
    rw [show (s'.toContext.closeScope).types.display x = type.print from hdisplay]
    exact TypeExpr.dotless_print hnames⟩

/-- Annotations of every kind: in a class and its base, in an enum, in functions, and of variables
in a function and outside of any. -/
def manyAnnotations : Program :=
  (StateT.run (m := Id) (do
    let size ← Draft.variableDecl "size" (some (← Draft.namedType "Int32" []))
      (some (← Draft.literal (.integer "1")))
    let shape ← Draft.classDecl "Shape" none [.var size]
    let circle ← Draft.classDecl "Circle" (some (← Draft.namedType "Shape" [])) []
    let color ← Draft.enumDecl "Color" [← Draft.enumItem "Red" [],
      ← Draft.enumItem "Mixed" [← Draft.arrayType (← Draft.namedType "Color" [])]]
    let text ← Draft.parameter "text" (← Draft.namedType "String" [])
    let log ← Draft.foreignDecl "log" [text] none
    let action ← Draft.parameter "action" (← Draft.functionType
      [← Draft.namedType "Float64" [], ← Draft.namedType "Circle" []] none)
    let point ← Draft.parameter "point" (← Draft.recordType
      [("at", ← Draft.namedType "Shape" []), ("of", ← Draft.namedType "Color" [])])
    let choice ← Draft.inlineEnumType [← Draft.enumItem "A" [],
      ← Draft.enumItem "B" [← Draft.optionalType (← Draft.namedType "Bool" [])]]
    let y ← Draft.variableStmt "y" (some choice) (some (← Draft.shorthand "A"))
    let g ← Draft.functionDecl "g" [action, point] none [y]
    let z ← Draft.variableStmt "z" (some (← Draft.namedType "Color" []))
      (some (← Draft.shorthand "Red"))
    Draft.program [.object circle, .object shape, .enum color, .foreign log, .function g] [z]) {}).1

theorem annotation_displays_as_written_manyAnnotations :
    ∃ a, Analysis.standard manyAnnotations = .ok a ∧ manyAnnotations.FullyNumbered ∧
    manyAnnotations.annotations.map TypeExpr.print =
      ["Shape", "Int", "Array<Color>", "Color", "String", "(Float, Circle) -> Void", "Float",
        "Circle", "\x7bat: Shape, of: Color\x7d", "Shape", "Color",
        "enum \x7b A, B(Optional<Bool>) \x7d", "Optional<Bool>", "Bool", "Color"] ∧
    ∀ type ∈ manyAnnotations.annotations, ∃ x, a.context.nodeType? type.node.id = some x ∧
      a.context.types.Finite x ∧ a.context.types.display x = type.print ∧
      ((∀ name ∈ type.names, Dotless name) → Dotless (a.context.types.display x)) := by
  have hp : manyAnnotations.FullyNumbered :=
    ⟨⟨by decide +kernel, by decide +kernel⟩, by decide +kernel, by decide +kernel⟩
  obtain ⟨a, ha, -⟩ := exists_of_map_eq (p := manyAnnotations) (f := fun _ => ()) (y := ())
    (by decide +kernel)
  exact ⟨a, ha, hp, by decide +kernel, annotation_displays_as_written hp ha⟩

end Analysis

end Sema
