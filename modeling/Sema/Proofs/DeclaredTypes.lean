import Sema.Proofs.Locals
import Sema.Proofs.ScopeTree

/-!
What the walk over variables and bodies leaves of signatures, if all classes and enums have
different names. A slot that was there when the walk began is written only when the variable that
it belongs to is resolved. So a class or an enum ends with the type that was stored for it when it
was collected, whatever annotations have shared its slot.
-/

namespace Sema

open Sema.Action Context

/-- A program with different names for all classes and enums, in the state in which variables and
bodies begin to be resolved. -/
structure Setting where
  program : Program
  plan : Plan
  start : Resolving
  numbered : program.FullyNumbered
  distinct : program.DistinctTypeNames
  starts : Resolve.Starts program plan start
  tidy : start.Tidy
  frames : start.frames = program.declared

namespace Setting

variable {G : Setting} {s s' : Resolving} {n : NodeId} {x : Slot}

def groundwork (G : Setting) : Groundwork :=
  G.starts.toBegins.groundwork G.numbered.toNumbered True fun _ => G.starts.named

lemma covers (G : Setting) : G.plan.Covers G.groundwork.vars :=
  G.starts.covers G.numbered.toNumbered

lemma footing (G : Setting) : Resolving.Footing G.groundwork G.start :=
  G.starts.footing G.numbered.toNumbered True fun _ => G.starts.named

/-- The walk over all declarations. -/
lemma advances (G : Setting)
    (hr : Runs (Resolve.decls .reopen G.plan G.program.declarations) G.start () s') :
    Resolving.Advances G.groundwork (G.program.allDecls.flatMap Decl.visited) G.start s' :=
  (G.starts.walked G.numbered.toNumbered (fun _ => G.starts.named) hr).advances

end Setting

namespace Resolving.Footing

variable {G : Groundwork} {s : Resolving} {n : NodeId} {x : Slot}

/-- A node of a signature that is not that of a variable holds what it held, up to which of two
classes or enums of one name it is. -/
lemma key_stays (h : Footing G s) (hr : G.r) (hn : n ∈ G.layout.map Prod.fst)
    (hvar : ∀ v ∈ G.vars, n ∉ v.id :: TypeExpr.nodes? v.type) (hx : G.start.nodeType? n = some x) :
    (G.start.types.get x).Stays (Unambiguous G.layout) (s.types.get x) :=
  h.stays hr (G.arranged.lt n x hn hx) (G.not_owns hn hvar hx)

end Resolving.Footing

/-! ### Classes and enums -/

namespace Context

variable {c c' : Context} {d : Decl} {x y : Slot} {L : List (NodeId × Tag)}

/-- The slot belongs to a class or an enum and holds it as it is declared: with its own scope, the
slots of its base class and of its fields, or those of its items. -/
def HoldsType (c : Context) (x : Slot) : Decl → Prop
  | .object o => ∃ scope base fields, c.nodeType? o.id = some x ∧ c.scopeOf? o.id = some scope ∧
      Layer.Base c (o.base.map (·.node.id)) base ∧
      Layer.Fields c (Decl.fieldNodes o.members) fields ∧
      c.types.get x = .object scope base o.name.name fields
  | .enum e => ∃ scope items, c.nodeType? e.id = some x ∧ c.scopeOf? e.id = some scope ∧
      Layer.Holders c (e.items.map (·.id)) items ∧ c.types.get x = .enum scope e.name.name items
  | .function _ | .var _ | .foreign _ => False

lemma HoldsType.nodeType? (h : c.HoldsType x d) : c.nodeType? d.node.id = some x := by
  cases d with
  | object o =>
    obtain ⟨_, _, _, hx, -⟩ := h
    exact hx
  | enum e =>
    obtain ⟨_, _, hx, -⟩ := h
    exact hx
  | function | var | foreign => exact False.elim h

lemma HoldsType.typeSlot (h : c.HoldsType x d) (ht : ∀ t ∈ d.tags, t ∈ L) :
    ∃ name, TypeSlot L c name x := by
  cases d with
  | object o => exact ⟨_, _, ht _ List.mem_cons_self, h.nodeType?⟩
  | enum e => exact ⟨_, _, ht _ List.mem_cons_self, h.nodeType?⟩
  | function | var | foreign => exact False.elim h

lemma HoldsType.mono (h : c.HoldsType x d)
    (hn : ∀ n z, c.nodeType? n = some z → c'.nodeType? n = some z)
    (hscope : c'.scopeOf? d.node.id = c.scopeOf? d.node.id)
    (hget : c'.types.get x = c.types.get x) : c'.HoldsType x d := by
  cases d with
  | object o =>
    obtain ⟨scope, base, fields, hx, hs, hbase, hfields, hshape⟩ := h
    exact ⟨scope, base, fields, hn _ _ hx, hscope.trans hs, hbase.mono hn, hfields.mono hn,
      hget.trans hshape⟩
  | enum e =>
    obtain ⟨scope, items, hx, hs, hitems, hshape⟩ := h
    exact ⟨scope, items, hn _ _ hx, hscope.trans hs, hitems.mono hn, hget.trans hshape⟩
  | function | var | foreign => exact False.elim h

/-- Two contexts that both hold the type, one of which knows more nodes, hold the same. -/
lemma HoldsType.eq (h : c.HoldsType x d) (h' : c'.HoldsType y d)
    (hn : ∀ n z, c.nodeType? n = some z → c'.nodeType? n = some z)
    (hscope : c'.scopeOf? d.node.id = c.scopeOf? d.node.id) :
    x = y ∧ c'.types.get y = c.types.get x := by
  cases d with
  | object o =>
    obtain ⟨scope, base, fields, hx, hs, hbase, hfields, hget⟩ := h
    obtain ⟨scope', base', fields', hy, hs', hbase', hfields', hget'⟩ := h'
    obtain rfl : scope' = scope := Option.some.inj ((hs'.symm.trans hscope).trans hs)
    obtain rfl := (hbase.mono hn).unique hbase'
    obtain rfl := (hfields.mono hn).unique hfields'
    exact ⟨Option.some.inj ((hn _ _ hx).symm.trans hy), hget'.trans hget.symm⟩
  | enum e =>
    obtain ⟨scope, items, hx, hs, hitems, hget⟩ := h
    obtain ⟨scope', items', hy, hs', hitems', hget'⟩ := h'
    obtain rfl : scope' = scope := Option.some.inj ((hs'.symm.trans hscope).trans hs)
    obtain rfl := (hitems.mono hn).unique hitems'
    exact ⟨Option.some.inj ((hn _ _ hx).symm.trans hy), hget'.trans hget.symm⟩
  | function | var | foreign => exact False.elim h

/-- What is known of declarations says what classes and enums hold. -/
lemma Signed.holdsType {ds : List Decl} (h : Signed L (ds.flatMap Decl.heads) c)
    (hu : Unambiguous L) (hd : d ∈ ds) (hname : d.typeName?.isSome) : ∃ x, c.HoldsType x d := by
  have hmem : ∀ l ∈ d.heads, l ∈ ds.flatMap Decl.heads :=
    fun l hl => List.mem_flatMap.mpr ⟨d, hd, hl⟩
  cases d with
  | object o =>
    obtain ⟨x, hx, -, -, hholds⟩ := h _ (hmem _ (List.mem_singleton_self _))
    obtain ⟨scope, base, fields, hrest⟩ := hholds hu
    exact ⟨x, scope, base, fields, hx, hrest⟩
  | enum e =>
    obtain ⟨x, hx, -, -, hholds⟩ := h _ (hmem _ (List.mem_singleton_self _))
    obtain ⟨scope, items, hrest⟩ := hholds hu
    exact ⟨x, scope, items, hx, hrest⟩
  | function | var | foreign => cases hname

/-- Frames that were there before keep their scopes. -/
lemma Tidy.scopeOf?_eq {fs : List Frame} {fr : Frame} (h : c.Tidy) (h' : c'.Tidy)
    (hframes : c'.frames = c.frames ++ fs) (hfr : fr ∈ c.frames) :
    c'.scopeOf? fr.node = c.scopeOf? fr.node := by
  obtain ⟨id, hid⟩ := List.getElem?_of_mem hfr
  have hid' : c'.frames[id]? = some fr := by
    rw [hframes, List.getElem?_append_left (List.getElem?_eq_some_iff.mp hid).1, hid]
  rw [getElem?_frames] at hid hid'
  obtain ⟨sc, hsc, rfl⟩ := Option.map_eq_some_iff.mp hid
  obtain ⟨sc', hsc', hnode⟩ := Option.map_eq_some_iff.mp hid'
  have hscope := h'.indexed id sc' hsc'
  rw [show sc'.node = (c.frameOf sc).node from congrArg Frame.node hnode] at hscope
  exact hscope.trans (h.indexed id sc hsc).symm

end Context

namespace Analysis

variable {p : Program} {a : Analysis} {c1 c2 : Context}

/-- The state in which the second walk over an accepted program starts. -/
lemma Accepts.setting (h : Accepts p a c1 c2) (hp : p.FullyNumbered) (hd : p.DistinctTypeNames) :
    ∃ (G : Setting) (s' : Resolving), G.program = a.program ∧
      SameScopes { c1 with stack := [rootScope] } G.start.toContext ∧
      Runs (Resolve.decls .reopen G.plan a.program.declarations) G.start () s' ∧
      c2 = s'.toContext.closeScope := by
  have hnum : a.program.FullyNumbered := hp.hoist.withEntryPoint h.arranged
  obtain ⟨plan, s, s', hstarts, htidy, hframes, hsame, -, hdecls, rfl⟩ := h.starts hnum
  exact ⟨⟨a.program, plan, s, hnum, hd.hoist.withEntryPoint h.arranged, hstarts, htidy, hframes⟩,
    s', rfl, hsame, hdecls, rfl⟩

/-- What the second walk leaves as it found it. -/
structure Leaves (p : Program) (c c' : Context) : Prop where
  nodeType : ∀ n x, c.nodeType? n = some x → c'.nodeType? n = some x
  scopeOf : ∀ d ∈ p.allDecls, d.scopeKind?.isSome → c'.scopeOf? d.node.id = c.scopeOf? d.node.id
  types : ∀ name x, TypeSlot p.layout c name x → c'.types.get x = c.types.get x

lemma Accepts.leaves (h : Accepts p a c1 c2) (hp : p.FullyNumbered) (hd : p.DistinctTypeNames) :
    ∃ c, Leaves a.program c c2 ∧ (∀ n, c.scopeOf? n = c1.scopeOf? n) ∧
      Signed a.program.layout (a.program.allDecls.flatMap Decl.heads) c := by
  obtain ⟨G, s', hprogram, hsame, hdecls, rfl⟩ := h.setting hp hd
  have hadds := h.adds (hp.hoist.withEntryPoint h.arranged)
  have hadv := G.advances (by rwa [hprogram])
  rw [← hprogram]
  refine ⟨G.start.toContext, ⟨hadv.nodeType, fun d hmem hkind => ?_,
    fun name x hx => hadv.footing.type_kept trivial G.distinct.unambiguous hx⟩,
    hsame.scopeOf?, G.starts.heads⟩
  obtain ⟨kind, hkind⟩ := Option.isSome_iff_exists.mp hkind
  obtain ⟨fr, hfr, hnode, -⟩ := Decl.exists_frameAll G.program.id hmem hkind
  rw [← hnode]
  have hframes : s'.closeScope.frames =
      G.start.frames ++ G.program.allDecls.flatMap Decl.bodyFrames := by
    rw [G.frames, hprogram]
    exact hadds.frames
  refine G.tidy.scopeOf?_eq hadds.tidy hframes ?_
  rw [G.frames]
  exact List.mem_cons_of_mem _ hfr

/-- **Using a type never changes its declaration.** If all classes and enums of an accepted program
have different names, each of them ends with the type that it had when the program was collected,
in the same slot; and that type has the scope of the declaration, the slot of the base class and
the slots of the fields or items as they are declared. -/
theorem declared_type_unchanged (hp : p.FullyNumbered) (hd : p.DistinctTypeNames)
    (h : Analysis.standard p = .ok a) :
    ∃ c, Runs (Collect.program .fresh a.program) {} () c ∧
      ∀ d ∈ a.program.allDecls, d.typeName?.isSome →
        ∃ x, c.HoldsType x d ∧ a.context.HoldsType x d ∧
          a.context.types.get x = c.types.get x := by
  obtain ⟨c1, c2, hacc⟩ := accepts_of_standard h
  obtain ⟨g, hg⟩ := hacc.context
  obtain ⟨c, hleaves, hscope, hheads⟩ := hacc.leaves hp hd
  have hnum : a.program.FullyNumbered := hp.hoist.withEntryPoint hacc.arranged
  have hdistinct : a.program.DistinctTypeNames := hd.hoist.withEntryPoint hacc.arranged
  have hcollected := (Resolve.signed_collected hnum.toNumbered hacc.collect).2
  have hgrows : Grows (fun _ => True) c1 c2 :=
    (Resolve.within_program _ _).of_runs hacc.resolve
  rw [hg]
  refine ⟨c1, hacc.collect, fun d hmem hname => ?_⟩
  obtain ⟨x, hx⟩ := hheads.holdsType hdistinct.unambiguous hmem hname
  obtain ⟨y, hy⟩ := hcollected.holdsType hdistinct.unambiguous hmem hname
  have hkind : d.scopeKind?.isSome := by
    cases d <;> first | rfl | cases hname
  have hfinal : c2.HoldsType x d := by
    obtain ⟨name, hslot⟩ := hx.typeSlot fun t ht => List.mem_flatMap.mpr ⟨d, hmem, ht⟩
    exact hx.mono hleaves.nodeType (hleaves.scopeOf d hmem hkind) (hleaves.types name x hslot)
  obtain ⟨rfl, hget⟩ :=
    hy.eq hfinal hgrows.nodeType ((hleaves.scopeOf d hmem hkind).trans (hscope _))
  exact ⟨y, hy, hfinal.mono (fun _ _ h => h) rfl rfl, hget⟩

/-- A class with a base class that is declared further down and with another class inside, an enum
whose item has a payload, and a function that uses them before they are declared. -/
def sharedTypes : Program :=
  (StateT.run (m := Id) (do
    let p ← Draft.parameter "p" (← Draft.namedType "B" [])
    let q ← Draft.parameter "q" (← Draft.optionalType (← Draft.namedType "Color" []))
    let f ← Draft.functionDecl "f" [p, q] none []
    let y ← Draft.variableDecl "y" (some (← Draft.namedType "B" [])) none
    let inner ← Draft.classDecl "Inner" none [.var y]
    let c ← Draft.variableDecl "c" (some (← Draft.namedType "Color" [])) none
    let b ← Draft.classDecl "B" (some (← Draft.namedType "A" [])) [.var c, .object inner]
    let x ← Draft.variableDecl "x" (some (← Draft.namedType "Int" [])) none
    let o ← Draft.classDecl "A" none [.var x]
    let e ← Draft.enumDecl "Color" [← Draft.enumItem "red" [← Draft.namedType "B" []]]
    Draft.program [.function f, .object b, .object o, .enum e] []) {}).1

theorem declared_type_unchanged_sharedTypes : ∃ a, Analysis.standard sharedTypes = .ok a ∧
    sharedTypes.FullyNumbered ∧ sharedTypes.DistinctTypeNames ∧
    a.program.allDecls.filterMap Decl.typeName? = ["B", "Inner", "A", "Color"] ∧
    ∃ c, Runs (Collect.program .fresh a.program) {} () c ∧
      ∀ d ∈ a.program.allDecls, d.typeName?.isSome →
        ∃ x, c.HoldsType x d ∧ a.context.HoldsType x d ∧
          a.context.types.get x = c.types.get x := by
  have hp : sharedTypes.FullyNumbered :=
    ⟨⟨by decide +kernel, by decide +kernel⟩, by decide +kernel, by decide +kernel⟩
  have hd : (sharedTypes.allDecls.filterMap Decl.typeName?).Nodup := by decide +kernel
  obtain ⟨a, ha, hnames⟩ := exists_of_map_eq (p := sharedTypes)
    (f := fun a => a.program.allDecls.filterMap Decl.typeName?) (y := ["B", "Inner", "A", "Color"])
    (by decide +kernel)
  exact ⟨a, ha, hp, hd, hnames, declared_type_unchanged hp hd ha⟩

/-- A class, and another class with a function that uses it and, below, a class of the same name. -/
def sameNames : Program :=
  (StateT.run (m := Id) (do
    let x ← Draft.variableDecl "x" (some (← Draft.namedType "Int" [])) none
    let outer ← Draft.classDecl "A" none [.var x]
    let p ← Draft.parameter "p" (← Draft.namedType "A" [])
    let f ← Draft.functionDecl "f" [p] none []
    let y ← Draft.variableDecl "y" (some (← Draft.namedType "String" [])) none
    let inner ← Draft.classDecl "A" none [.var y]
    let b ← Draft.classDecl "B" none [.function f, .object inner]
    Draft.program [.object outer, .object b] []) {}).1

/-- With two classes of one name the outer one ends as the inner one: the annotation that shares its
slot is resolved again where the inner one is visible. -/
theorem declared_type_changed_sameNames : ∃ a c, Analysis.standard sameNames = .ok a ∧
    sameNames.FullyNumbered ∧ Runs (Collect.program .fresh a.program) {} () c ∧
    ∃ d ∈ a.program.allDecls, d.typeName? = some "A" ∧
      (c.shape? d.node.id).map (·.fields.map Prod.fst) = some ["x"] ∧
      (a.context.shape? d.node.id).map (·.fields.map Prod.fst) = some ["y"] := by
  have hp : sameNames.FullyNumbered :=
    ⟨⟨by decide +kernel, by decide +kernel⟩, by decide +kernel, by decide +kernel⟩
  obtain ⟨a, ha, hrun⟩ := exists_of_map_eq (p := sameNames)
    (f := fun a =>
      (((Collect.program .fresh a.program).outcome {}).1.toOption.isSome,
        a.program.allDecls.head?.map fun d => [d.typeName?.map ([·]),
          (((Collect.program .fresh a.program).outcome {}).2.shape? d.node.id).map
            (·.fields.map Prod.fst),
          (a.context.shape? d.node.id).map (·.fields.map Prod.fst)]))
    (y := (true, some [some ["A"], some ["x"], some ["y"]])) (by decide +kernel)
  obtain ⟨hresult, hhead⟩ := Prod.ext_iff.mp hrun
  obtain ⟨d, hd, hd'⟩ := Option.map_eq_some_iff.mp hhead
  simp only [List.cons.injEq, and_true] at hd'
  refine ⟨a, _, ha, hp, Prod.ext ?_ rfl, d, List.mem_of_head? hd, by simpa using hd'.1, hd'.2⟩
  revert hresult
  rcases ((Collect.program .fresh a.program).outcome {}).1 with _ | _ <;> simp [Except.toOption]

end Analysis

end Sema
