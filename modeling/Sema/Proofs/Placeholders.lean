import Sema.Analysis.Report
import Sema.Proofs.Accepted
import Sema.Proofs.Growth
import Sema.Proofs.Inversion
import Sema.Proofs.Parts
import Sema.Syntax.Draft

/-!
No placeholder survives an analysis. The completeness check stops at classes and enums, since it
comes to them where they are declared. That is enough: whatever a class or an enum refers to, in
whichever slot it is stored and however early it was copied there, is the slot of a node that the
check comes to as well.
-/

namespace Sema

open Sema.Action

namespace Context

variable {N : NodeId → Prop} {c c' : Context}

/-- The slot is that of a node in `N`. -/
def AnchoredSlot (N : NodeId → Prop) (c : Context) (x : Slot) : Prop :=
  ∃ n, N n ∧ c.nodeType? n = some x

/-- Whatever a class or an enum refers to is the slot of a node in `N`. -/
def Anchored (N : NodeId → Prop) (c : Context) : Prop :=
  ∀ x, ∀ h ∈ (c.types.get x).nominalHandles, c.AnchoredSlot N h

lemma AnchoredSlot.grows {P : Shape → Prop} {x : Slot} (h : c.AnchoredSlot N x)
    (hg : Grows P c c') : c'.AnchoredSlot N x := by
  obtain ⟨n, hn, hx⟩ := h
  exact ⟨n, hn, hg.nodeType n x hx⟩

/-- A step keeps all classes and enums anchored if it anchors the new ones. -/
lemma Anchored.grows {P : Shape → Prop} (h : c.Anchored N) (hg : Grows P c c')
    (hP : ∀ shape, P shape → ∀ x ∈ shape.nominalHandles, c'.AnchoredSlot N x) : c'.Anchored N := by
  intro x y hy
  rcases hg.shapes x with hx | ⟨z, hz⟩
  · exact hP _ hx y hy
  · rw [← hz] at hy
    exact (h z y hy).grows hg

/-- A step that makes up no class and no enum keeps all of them anchored. -/
lemma Anchored.grows_plain (h : c.Anchored N)
    (hg : Grows (fun shape => shape.nominalName? = none) c c') : c'.Anchored N := by
  refine h.grows hg fun shape hs x hx => ?_
  rw [Shape.nominalHandles_eq_nil hs] at hx
  cases hx

lemma Anchored.of_setShape {n : NodeId} {shape : Shape} {y : Slot} (h : c.Anchored N)
    (hset : c.setShape n shape = (y, c'))
    (hs : ∀ x ∈ shape.nominalHandles, c.AnchoredSlot N x) : c'.Anchored N := by
  have hg : Grows (· = shape) c (c.setShape n shape).2 := grows_setShape rfl
  rw [hset] at hg
  refine h.grows hg ?_
  rintro _ rfl x hx
  exact (hs x hx).grows hg

end Context

/-! ### Collection -/

namespace Collect

variable {N : NodeId → Prop} {c c' : Context} {α : Type} {a : α}

/-- Steps that make up no class and no enum. -/
lemma anchored_of_within {x : Check α}
    (hx : Within (Context.Grows fun shape => shape.nominalName? = none) x) (h : c.Anchored N)
    (hr : Runs x c a c') : c'.Anchored N :=
  h.grows_plain (hx.of_runs hr)

lemma anchored_inScope {mode : ScopeMode} {kind : ScopeKind} {node : Node} {body : Check α}
    (hbody : ∀ {c1 c2}, c1.Anchored N → Runs body c1 a c2 → c2.Anchored N) (h : c.Anchored N)
    (hr : Runs (mode.inScope kind node body) c a c') : c'.Anchored N := by
  obtain ⟨c1, c2, henter, hb, rfl⟩ := runs_bracket.mp hr
  obtain ⟨htypes, hnodes, -⟩ := mode.leave_frame c2
  have h1 : c1.Anchored N := by
    obtain ⟨ht, hn, -⟩ := ScopeMode.runs_enter henter
    unfold Context.Anchored Context.AnchoredSlot Context.nodeType?
    rw [ht, hn]
    exact h
  have h2 := hbody h1 hb
  unfold Context.Anchored Context.AnchoredSlot Context.nodeType? at h2 ⊢
  rw [htypes, hnodes]
  exact h2

/-- The items of an enum are the slots of their nodes. -/
lemma anchored_enumItems : ∀ {items : List EnumItem} {c c' : Context} {slots : List Slot},
    (∀ item ∈ items, N item.id) → c.Anchored N → Runs (enumItems items) c slots c' →
      c'.Anchored N ∧ ∀ x ∈ slots, c'.AnchoredSlot N x
  | [], _, _, _, _, h, hr => by
    simp only [enumItems, runs_pure] at hr
    obtain ⟨rfl, rfl⟩ := hr
    exact ⟨h, by simp⟩
  | item :: rest, c, c', slots, hN, h, hr => by
    simp only [enumItems, runs_bind, runs_pure] at hr
    obtain ⟨_, c1, hdecl, x, c2, hitem, xs, _, hrest, rfl, rfl⟩ := hr
    have h1 := anchored_of_within (Check.within_declare _ _ _ _) h hdecl
    have h2 := anchored_of_within (TypeExpr.within_resolveItem _ _) h1 hitem
    obtain ⟨h3, hxs⟩ := anchored_enumItems (fun i hi => hN i (List.mem_cons_of_mem _ hi)) h2 hrest
    refine ⟨h3, List.forall_mem_cons.mpr ⟨?_, hxs⟩⟩
    have hx : c2.AnchoredSlot N x :=
      ⟨item.id, hN item List.mem_cons_self, TypeExpr.nodeType?_resolveItem hitem⟩
    have hgrows : Context.Grows (fun _ => True) c2 _ := (within_enumItems rest).of_runs hrest
    exact hx.grows hgrows

lemma anchored_enum {mode : ScopeMode} {e : EnumDecl} (hN : ∀ item ∈ e.items, N item.id)
    (h : c.Anchored N) (hr : Runs (enum mode e) c () c') : c'.Anchored N := by
  simp only [enum, runs_bind] at hr
  obtain ⟨_, c1, hdecl, hr⟩ := hr
  refine anchored_inScope ?_ (anchored_of_within (Check.within_declare _ _ _ _) h hdecl) hr
  intro c2 c3 h2 hbody
  simp only [runs_bind, runs_get, Check.runs_setShape, runs_pure] at hbody
  obtain ⟨_, _, ⟨rfl, rfl⟩, items, c4, hitems, x, _, hset, _, rfl⟩ := hbody
  obtain ⟨h4, hslots⟩ := anchored_enumItems hN h2 hitems
  exact h4.of_setShape hset hslots

lemma anchored_baseType {base : Option TypeExpr} {b : Option Slot}
    (hN : ∀ n ∈ TypeExpr.nodes? base, N n) (hr : Runs (baseType base) c b c') :
    ∀ x ∈ b.toList, c'.AnchoredSlot N x := by
  cases base with
  | none =>
    simp only [baseType, runs_pure] at hr
    obtain ⟨rfl, rfl⟩ := hr
    simp
  | some type =>
    simp only [baseType, runs_bind, runs_pure] at hr
    obtain ⟨x, _, hx, rfl, rfl⟩ := hr
    intro y hy
    obtain rfl : y = x := by simpa using hy
    exact ⟨type.node.id, hN _ type.node_mem_nodes, TypeExpr.nodeType?_resolve hx⟩

lemma mem_nominalHandles_addField {shape : Shape} {name : String} {s x : Slot}
    (h : x ∈ (shape.addField name s).nominalHandles) : x ∈ shape.nominalHandles ∨ x = s := by
  cases shape <;> simp_all [Shape.addField, Shape.nominalHandles]
  tauto

/-- The fields of a class are the slots of its members. -/
lemma anchored_addField {object : Slot} {member : Decl} (hN : N member.node.id) (h : c.Anchored N)
    (hr : Runs (addField object member) c () c') : c'.Anchored N := by
  unfold addField at hr
  split at hr
  · simp only [runs_bind, Check.runs_slotOf, Check.runs_types, runs_modify] at hr
    obtain ⟨s, c1, hs, _, _, ⟨rfl, rfl⟩, rfl⟩ := hr
    have h1 : c1.Anchored N :=
      h.grows_plain ((Check.within_slotOf _).of_runs (Check.runs_slotOf.mpr hs))
    have hslot : c1.AnchoredSlot N s := ⟨_, hN, Context.nodeType?_of_slotOf hs⟩
    have hg : Context.Grows (· = (c1.types.get object).addField member.name s) c1 _ :=
      Context.grows_set object rfl
    refine h1.grows hg ?_
    rintro _ rfl x hx
    rcases mem_nominalHandles_addField hx with hx | rfl
    · exact (h1 object x hx).grows hg
    · exact hslot.grows hg
  · simp only [runs_pure] at hr
    obtain ⟨-, rfl⟩ := hr
    exact h

mutual

lemma anchored_decl {mode : ScopeMode} : ∀ {d : Decl} {c c' : Context},
    (∀ d' ∈ d.all, ∀ n ∈ d'.signature, N n) → c.Anchored N → Runs (decl mode d) c () c' →
      c'.Anchored N
  | .object _, _, _, hN, h, hr => by
    obtain ⟨hown, hmembers⟩ := List.forall_mem_cons.mp hN
    exact anchored_object hown hmembers h (runs_within.mp hr)
  | .function _, _, _, _, h, hr =>
    anchored_of_within (within_within (within_function _ _)) h hr
  | .var _, _, _, _, h, hr =>
    anchored_of_within (within_within (within_variableDecl _)) h hr
  | .enum e, _, _, hN, h, hr => by
    have hN := hN _ List.mem_cons_self
    refine anchored_enum (fun item hi => hN _ (List.mem_cons_of_mem _ ?_)) h (runs_within.mp hr)
    exact EnumItem.id_mem_nodesAll hi
  | .foreign _, _, _, _, h, hr =>
    anchored_of_within (within_within (within_foreign _)) h hr

lemma anchored_object {mode : ScopeMode} : ∀ {d : ClassDecl} {c c' : Context},
    (∀ n ∈ (Decl.object d).signature, N n) → (∀ d' ∈ d.all, ∀ n ∈ d'.signature, N n) →
      c.Anchored N → Runs (object mode d) c () c' → c'.Anchored N
  | ⟨node, name, base, members⟩, c, c', hown, hmembers, h, hr => by
    simp only [object, runs_bind] at hr
    obtain ⟨_, c1, hdecl, hr⟩ := hr
    refine anchored_inScope ?_ (anchored_of_within (Check.within_declare _ _ _ _) h hdecl) hr
    intro c2 c3 h2 hbody
    simp only [runs_bind, runs_get, Check.runs_setShape] at hbody
    obtain ⟨_, _, ⟨rfl, rfl⟩, b, c4, hbase, s, c5, hset, hfields⟩ := hbody
    have h4 := anchored_of_within (within_baseType base) h2 hbase
    have hb := anchored_baseType (fun n hn => hown n (List.mem_cons_of_mem _ hn)) hbase
    have h5 : c5.Anchored N := h4.of_setShape hset (by simpa [Shape.nominalHandles] using hb)
    exact anchored_fields hmembers h5 hfields

lemma anchored_fields {mode : ScopeMode} {s : Slot} : ∀ {ds : List Decl} {c c' : Context},
    (∀ d' ∈ Decl.allOf ds, ∀ n ∈ d'.signature, N n) → c.Anchored N →
      Runs (fields mode s ds) c () c' → c'.Anchored N
  | [], _, _, _, h, hr => by
    simp only [fields, runs_pure] at hr
    obtain ⟨-, rfl⟩ := hr
    exact h
  | d :: rest, c, c', hN, h, hr => by
    obtain ⟨hd, hrest⟩ := List.forall_mem_append.mp hN
    simp only [fields, runs_bind] at hr
    obtain ⟨_, c1, hdecl, _, c2, hadd, hr⟩ := hr
    have h1 := anchored_decl hd h hdecl
    have h2 := anchored_addField (hd d d.mem_all _ d.node_mem_signature) h1 hadd
    exact anchored_fields hrest h2 hr

end

lemma anchored_decls {mode : ScopeMode} : ∀ {ds : List Decl} {c c' : Context},
    (∀ d' ∈ Decl.allOf ds, ∀ n ∈ d'.signature, N n) → c.Anchored N →
      Runs (decls mode ds) c () c' → c'.Anchored N
  | [], _, _, _, h, hr => by
    simp only [decls, runs_pure] at hr
    obtain ⟨-, rfl⟩ := hr
    exact h
  | d :: rest, c, c', hN, h, hr => by
    obtain ⟨hd, hrest⟩ := List.forall_mem_append.mp hN
    simp only [decls, runs_bind] at hr
    obtain ⟨_, c1, hdecl, hr⟩ := hr
    exact anchored_decls hrest (anchored_decl hd h hdecl) hr

end Collect

/-! ### Looking for expressions without a type -/

namespace Visitor

variable {σ : Type}

/-- The visit leaves the state alone. -/
def Still (x : StateM σ Unit) : Prop :=
  ∀ s, (x.run s).2 = s

lemma still_pure : Still (pure () : StateM σ Unit) := fun _ => rfl

lemma still_seq {x y : StateM σ Unit} (hx : Still x) (hy : Still y) : Still (do x; y) := by
  intro s
  have h : ((do x; y : StateM σ Unit).run s).2 = (y.run (x.run s).2).2 := rfl
  rw [h, hx, hy]

variable {T : NodeId → Prop} {hook : Expr → StateM σ Unit → StateM σ Unit}

/-- The hook does nothing at an expression whose node is in `T`. -/
abbrev Passes (T : NodeId → Prop) (hook : Expr → StateM σ Unit → StateM σ Unit) : Prop :=
  ∀ e children, T e.node.id → Still children → Still (hook e children)

lemma still_visit (hh : Passes T hook) (x : Piece) (hx : ∀ n ∈ x.nodes, T n) :
    Still (visit { expression := hook } x) := by
  induction x using Piece.induction with
  | h x ih =>
    have hchildren : ∀ cs : List Piece, (∀ c ∈ cs, c ∈ x.children) →
        Still (forM cs (visit { expression := hook })) := by
      intro cs hcs
      induction cs with
      | nil => exact still_pure
      | cons c cs ihs =>
        obtain ⟨hc, hcs⟩ := List.forall_mem_cons.mp hcs
        rw [List.forM_cons]
        exact still_seq (ih c hc fun n hn => hx n (x.mem_nodes.mpr (.inr ⟨c, hc, hn⟩))) (ihs hcs)
    rw [visit_eq]
    cases x with
    | expression e =>
      exact hh e _ (hx _ ((Piece.expression e).mem_nodes.mpr (.inl ⟨_, rfl, rfl⟩)))
        (hchildren _ fun _ h => h)
    | _ => exact hchildren _ fun _ h => h

end Visitor

/-! ### Accepted programs -/

/-- The type in `x` leads to slot `y`, through slots that types refer to in any way. -/
def TypeStore.LeadsTo (t : TypeStore) : Slot → Slot → Prop :=
  Relation.ReflTransGen fun a b => b ∈ (t.get a).handles

lemma Context.anchored_empty (N : NodeId → Prop) : Context.Anchored N {} := by
  intro x y hy
  rw [TypeStore.get_eq_unknown _ (Nat.zero_le x)] at hy
  cases hy

namespace Analysis

variable {p : Program} {a : Analysis} {c1 c2 : Context}

lemma Accepts.anchored (h : Accepts p a c1 c2) : c2.Anchored (· ∈ a.program.nodes) := by
  have hsig : ∀ d ∈ a.program.allDecls, ∀ n ∈ d.signature, n ∈ a.program.nodes := by
    intro d hd n hn
    exact List.mem_append_left _ (List.mem_append_left _ (List.mem_flatMap.mpr ⟨d, hd, hn⟩))
  have hcollected : c1.Anchored (· ∈ a.program.nodes) :=
    Collect.anchored_inScope (Collect.anchored_decls hsig) (Context.anchored_empty _) h.collect
  exact hcollected.grows_plain ((Resolve.within_program _ _).of_runs h.resolve)

lemma Accepts.complete_nodes (h : Accepts p a c1 c2) : ∀ n ∈ a.program.nodes, c2.Complete n :=
  a.program.complete_of_checkComplete h.complete

/-- A slot that a node's type leads to is part of the type of some node. -/
lemma Accepts.part_of_leadsTo (h : Accepts p a c1 c2) {n : NodeId} {x y : Slot}
    (hn : n ∈ a.program.nodes) (hx : c2.nodeType? n = some x) (hy : c2.types.LeadsTo x y) :
    ∃ m ∈ a.program.nodes, ∃ z, c2.nodeType? m = some z ∧ c2.types.Part z y := by
  induction hy with
  | refl => exact ⟨n, hn, x, hx, .refl⟩
  | @tail u v _ hstep ih =>
    rcases List.mem_append.mp hstep with hv | hv
    · obtain ⟨m, hm, z, hz, hpart⟩ := ih
      exact ⟨m, hm, z, hz, hpart.tail hv⟩
    · obtain ⟨m, hm, hz⟩ := h.anchored u v hv
      exact ⟨m, hm, v, hz, .refl⟩

/-- **No placeholder survives**: in an accepted program every node has a slot, no expression is
found without one, and the type of no node leads to a type that is still to be found out, however
many classes and enums lie on the way. -/
theorem no_placeholder_left (h : Analysis.standard p = .ok a) :
    (∀ n ∈ a.program.nodes, ∃ x, a.context.nodeType? n = some x ∧
      ∀ y, a.context.types.LeadsTo x y → (a.context.types.get y).isPlaceholder = false) ∧
    a.untypedExpressions = [] := by
  obtain ⟨c1, c2, hacc⟩ := accepts_of_standard h
  obtain ⟨g, hg⟩ := hacc.context
  have htypes : a.context.types = c2.types := by rw [hg]
  have hnode : ∀ n, a.context.nodeType? n = c2.nodeType? n := by
    intro n
    rw [hg]
    rfl
  constructor
  · intro n hn
    obtain ⟨x, hx, -⟩ := hacc.complete_nodes n hn
    refine ⟨x, (hnode n).trans hx, ?_⟩
    rw [htypes]
    intro y hy
    obtain ⟨m, hm, z, hz, hpart⟩ := hacc.part_of_leadsTo hn hx hy
    obtain ⟨z', hz', hcomplete⟩ := hacc.complete_nodes m hm
    obtain rfl : z = z' := Option.some.inj (hz.symm.trans hz')
    by_contra hne
    have hinc : c2.types.isIncomplete z = true :=
      TypeStore.isIncomplete_iff.mpr ⟨y, hpart, by simpa using hne⟩
    rw [hcomplete] at hinc
    cases hinc
  · have htyped : ∀ n ∈ a.program.nodes, (a.context.nodeType? n).isSome := by
      intro n hn
      obtain ⟨x, hx, -⟩ := hacc.complete_nodes n hn
      rw [hnode, hx]
      rfl
    have hpass : Visitor.Passes (fun n => (a.context.nodeType? n).isSome)
        (fun e children => do
          if (a.context.nodeType? e.node.id).isNone then modify (· ++ [e])
          children) := by
      intro e children he hchildren
      have hnone : (a.context.nodeType? e.node.id).isNone = false := by
        cases hn : a.context.nodeType? e.node.id with
        | none => rw [hn] at he; cases he
        | some x => rfl
      simp only [hnone, Bool.false_eq_true, if_false]
      exact hchildren
    exact Visitor.still_visit hpass (.program a.program) htyped []

/-- Two classes, each with a field of the other; the second is also derived from the first. -/
def mutualClasses : Program :=
  (StateT.run (m := Id) (do
    let x ← Draft.variableDecl "x" (some (← Draft.namedType "B" [])) none
    let a ← Draft.classDecl "A" none [.var x]
    let optionalA ← Draft.optionalType (← Draft.namedType "A" [])
    let y ← Draft.variableDecl "y" (some optionalA) (some (← Draft.literal .null))
    let b ← Draft.classDecl "B" (some (← Draft.namedType "A" [])) [.var y]
    Draft.program [.object a, .object b] []) {}).1

theorem no_placeholder_left_mutualClasses : ∃ a, Analysis.standard mutualClasses = .ok a ∧
    (∀ n ∈ a.program.nodes, ∃ x, a.context.nodeType? n = some x ∧
      ∀ y, a.context.types.LeadsTo x y → (a.context.types.get y).isPlaceholder = false) ∧
    a.untypedExpressions = [] := by
  obtain ⟨a, ha, -⟩ := exists_of_map_eq (p := mutualClasses) (f := fun _ => ()) (y := ())
    (by decide +kernel)
  exact ⟨a, ha, no_placeholder_left ha⟩

end Analysis

end Sema
