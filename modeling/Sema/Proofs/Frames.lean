import Mathlib.Data.List.Nodup
import Sema.Proofs.Growth
import Sema.Proofs.Manner
import Sema.Proofs.Nodes
import Sema.Proofs.Walk

/-!
What resolving an annotation or an expression leaves alone. Both give types to their own nodes, one
after the other. An annotation is a sequence of such steps, from which it is read off what became of
a context. An expression demands variables on the way, so what is followed meanwhile is a frame: it
says which states are sound, which nodes are still to be given types, and what may become of a state
when nodes are given types. The walk over expressions is made once, for every frame. As to
inference, it fills only slots that are new since the expression was begun.
-/

namespace Sema

open Sema.Action

namespace Context

variable {c c1 c' : Context} {n : NodeId} {x y : Slot}

/-- A name stands for the node, or it is the node of a class around a scope. -/
def Declared (c : Context) (n : NodeId) : Prop :=
  ∃ id sc, c.scope? id = some sc ∧
    ((∃ symbol ∈ sc.symbols, symbol.declaration = n) ∨ sc.kind = .object ∧ sc.node = n)

instance (c : Context) (n : NodeId) : Decidable (c.Declared n) :=
  decidable_of_iff (∃ sc ∈ c.scopes.toList,
      (∃ symbol ∈ sc.symbols, symbol.declaration = n) ∨ sc.kind = .object ∧ sc.node = n) <| by
    simp only [Declared, scope?_eq, Array.mem_toList_iff, Array.mem_iff_getElem?]
    exact ⟨fun ⟨sc, ⟨id, hsc⟩, h⟩ => ⟨id, sc, hsc, h⟩, fun ⟨id, sc, hsc, h⟩ => ⟨sc, ⟨id, hsc⟩, h⟩⟩

lemma declared_of_declarationOf? {name : String} {kind : SymbolKind}
    (h : c.declarationOf? name kind = some n) : c.Declared n := by
  obtain ⟨symbol, id, sc, hsc, hmem, -, -, hd⟩ := exists_of_declarationOf? h
  exact ⟨id, sc, hsc, .inl ⟨symbol, hmem, hd⟩⟩

lemma declared_of_enclosing {id : ScopeId} {sc : Scope}
    (henc : c.enclosing? .object = some id) (hsc : c.scope? id = some sc) : c.Declared sc.node := by
  have hkind := List.find?_some henc
  simp only [scopeKind?, hsc, Option.map_some, Option.some.injEq, decide_eq_true_eq] at hkind
  exact ⟨id, sc, hsc, .inr ⟨hkind, rfl⟩⟩

/-! ### A node is given a slot -/

/-- A node that had no type has got the slot `x`, new or old, and nothing else has changed for what
was there. -/
structure Places (n : NodeId) (x : Slot) (c c' : Context) : Prop where
  untyped : c.nodeType? n = none
  size_le : c.types.size ≤ c'.types.size
  old : ∀ y < c.types.size, c'.types.get y = c.types.get y
  rest : c' = { c with types := c'.types, nodeTypes := c.nodeTypes.insert n x }

namespace Places

lemma nodeType? (h : Places n x c c') (m : NodeId) :
    c'.nodeType? m = if m = n then some x else c.nodeType? m := by
  rw [h.rest]
  exact Table.get?_insert _ _ _ _

lemma keeps (h : Places n x c c') {m : NodeId} (hm : c.nodeType? m = some y) :
    c'.nodeType? m = some y := by
  rw [h.nodeType?, if_neg]
  · exact hm
  · rintro rfl
    cases h.untyped.symm.trans hm

lemma node (h : Places n x c c') : c'.nodeType? n = some x := by
  rw [h.nodeType?, if_pos rfl]

lemma bind (hn : c.nodeType? n = none) (h : c.bind n y = (x, c')) : Places n x c c' := by
  rw [bind_of_none hn] at h
  cases h
  exact ⟨hn, le_rfl, fun _ _ => rfl, rfl⟩

lemma allocFor (hn : c.nodeType? n = none) (shape : Shape) :
    Places n (c.allocFor n shape).1 c (c.allocFor n shape).2 :=
  ⟨hn, by simp [Context.allocFor], fun _ hy => c.types.get_alloc_of_lt shape hy, rfl⟩

lemma setShape (hn : c.nodeType? n = none) {shape : Shape} (h : c.setShape n shape = (x, c')) :
    Places n x c c' := by
  have hp := allocFor hn shape
  rwa [← setShape_of_none hn, h] at hp

lemma slotOf (hn : c.nodeType? n = none) (h : c.slotOf n = (x, c')) : Places n x c c' := by
  have hp := allocFor hn .unknown
  rwa [← slotOf_of_none hn, h] at hp

/-- A node that gets a slot of its own, with a copy in it. -/
lemma copy (hn : c.nodeType? n = none) (h : c.slotOf n = (x, c1)) :
    Places n x c (c1.assign x y) := by
  have hp := slotOf hn h
  have hx : c.types.size ≤ x := by
    rw [slotOf_of_none hn] at h
    cases h
    exact le_rfl
  refine ⟨hn, hp.size_le.trans_eq (TypeStore.size_assign _ _ _).symm, fun z hz => ?_, ?_⟩
  · refine (c1.types.get_assign_of_ne ?_).trans (hp.old z hz)
    exact (hz.trans_le hx).ne
  · rw [hp.rest]
    rfl

/-- A node that gets a slot after another one has been allocated. -/
lemma alloc {element : Shape} (h : Places n x (c.alloc element).2 c') : Places n x c c' := by
  refine ⟨h.untyped, ?_, fun y hy => ?_, h.rest⟩
  · exact (Nat.le_succ _).trans ((c.types.size_alloc element).symm.trans_le h.size_le)
  · refine (h.old y ?_).trans (c.types.get_alloc_of_lt element hy)
    rw [Context.alloc, TypeStore.size_alloc]
    exact hy.trans (Nat.lt_succ_self _)

end Places

end Context

/-! ### Annotations -/

namespace Context

variable {c : Context} {ns : List NodeId}

/-- The steps by which annotations give types to the nodes in `ns`, to each of them at most once.
Between them slots are allocated, and what names stand for is looked up. A node is bound to a
declared type only, and the result of a function is new or belongs to a node. -/
inductive Annotates (c : Context) : List NodeId → Context → Prop
  | refl : Annotates c [] c
  | alloc {ns : List NodeId} {c1 : Context} (h : Annotates c ns c1) (shape : Shape) :
      Annotates c ns (c1.alloc shape).2
  | lookup {ns : List NodeId} {c1 c' : Context} {d : NodeId} {x : Slot} (h : Annotates c ns c1)
      (hd : c1.Declared d) (hs : c1.slotOf d = (x, c')) : Annotates c ns c'
  | slotOf {ns : List NodeId} {c1 c' : Context} {n : NodeId} {x : Slot} (h : Annotates c ns c1)
      (hn : n ∉ ns) (hs : c1.slotOf n = (x, c')) : Annotates c (n :: ns) c'
  | bind {ns : List NodeId} {c1 c' : Context} {n d : NodeId} {name : String} {x y : Slot}
      (h : Annotates c ns c1) (hn : n ∉ ns) (hd : c1.declarationOf? name .type = some d)
      (hy : c1.nodeType? d = some y) (hb : c1.bind n y = (x, c')) : Annotates c (n :: ns) c'
  | setShape {ns : List NodeId} {c1 c' : Context} {n : NodeId} {x : Slot} {shape : Shape}
      (h : Annotates c ns c1) (hn : n ∉ ns)
      (hr : ∀ r ps, shape = .function r ps →
        c.types.size ≤ r ∧ r < c1.types.size ∨ ∃ m ∈ ns, c1.nodeType? m = some r)
      (hs : c1.setShape n shape = (x, c')) : Annotates c (n :: ns) c'
  | mono {ms ns : List NodeId} {c' : Context} (h : Annotates c ms c')
      (hsub : ∀ n ∈ ms, n ∈ ns) : Annotates c ns c'

lemma Annotates.size_le {c' : Context} (h : c.Annotates ns c') : c.types.size ≤ c'.types.size := by
  induction h with
  | refl => exact le_rfl
  | alloc _ shape ih => exact ih.trans (by simp [Context.alloc])
  | lookup _ _ hs ih | slotOf _ _ hs ih =>
    have hg : Grows (fun _ => True) _ _ :=
      (Check.within_slotOf _).of_runs (Check.runs_slotOf.mpr hs)
    exact ih.trans hg.size_le
  | bind _ _ _ _ hb ih =>
    have hg : Grows (fun _ => True) _ _ :=
      (Check.within_bindNode _ _).of_runs (Check.runs_bindNode.mpr hb)
    exact ih.trans hg.size_le
  | setShape _ _ _ hs ih =>
    have hg : Grows (fun _ => True) _ _ :=
      (Check.within_setShape trivial).of_runs (Check.runs_setShape.mpr hs)
    exact ih.trans hg.size_le
  | mono _ _ ih => exact ih

lemma Annotates.trans {ms : List NodeId} {c1 c2 : Context} (h1 : c.Annotates ms c1)
    (h2 : c1.Annotates ns c2) (hdisjoint : ms.Disjoint ns) : c.Annotates (ms ++ ns) c2 := by
  -- a node of the second annotation comes on top of all those of the first
  have hstep : ∀ {n ns c'}, (n ∉ ms ++ ns → c.Annotates (n :: (ms ++ ns)) c') → n ∉ ns →
      ms.Disjoint (n :: ns) → c.Annotates (ms ++ n :: ns) c' := by
    intro n ns c' h hn hdisjoint
    refine (h ?_).mono fun m => by simp only [List.mem_cons, List.mem_append]; tauto
    rw [List.mem_append, not_or]
    exact ⟨fun hm => hdisjoint hm List.mem_cons_self, hn⟩
  induction h2 with
  | refl => simpa using h1
  | alloc _ shape ih => exact (ih hdisjoint).alloc shape
  | lookup _ hd hs ih => exact (ih hdisjoint).lookup hd hs
  | slotOf _ hn hs ih =>
    exact hstep (fun h => (ih (List.disjoint_cons_right.mp hdisjoint).2).slotOf h hs) hn hdisjoint
  | bind _ hn hd hy hb ih =>
    exact hstep (fun h => (ih (List.disjoint_cons_right.mp hdisjoint).2).bind h hd hy hb) hn
      hdisjoint
  | setShape _ hn hr hs ih =>
    refine hstep (fun h => (ih (List.disjoint_cons_right.mp hdisjoint).2).setShape h ?_ hs) hn
      hdisjoint
    intro r ps hshape
    refine (hr r ps hshape).imp (And.imp_left h1.size_le.trans) ?_
    rintro ⟨m, hm, hmr⟩
    exact ⟨m, List.mem_append_right _ hm, hmr⟩
  | mono _ hsub ih =>
    refine (ih fun n hm hn => hdisjoint hm (hsub n hn)).mono fun n hn => ?_
    exact List.mem_append.mpr ((List.mem_append.mp hn).imp_right (hsub n))

end Context

namespace TypeExpr

open Context

variable {tolerance : Tolerance}

lemma annotates_resolveDeclared {c c' : Context} {node : Node} {name : String} {k : Nat} {x : Slot}
    (h : Runs (resolveDeclared tolerance node name k) c x c') : c.Annotates [node.id] c' := by
  rcases runs_resolveDeclared.mp h with ⟨d, y, c1, hd, -, hs, hb⟩ | ⟨-, -, hs⟩
  · have hd1 : c1.declarationOf? name .type = some d := by
      rw [← hd]
      rcases hn : c.nodeType? d with _ | z
      · rw [(Places.slotOf hn hs).rest]
        rfl
      · rw [slotOf_of_some hn] at hs
        cases hs
        rfl
    exact (Annotates.refl.lookup (declared_of_declarationOf? hd) hs).bind (by simp) hd1
      (nodeType?_of_slotOf hs) hb
  · exact Annotates.refl.slotOf (by simp) hs

mutual

/-- Resolving an annotation gives types to its own nodes. -/
lemma annotates_resolve : ∀ {type : TypeExpr} {c c' : Context} {x : Slot}, type.nodes.Nodup →
    Runs (type.resolve tolerance) c x c' → c.Annotates type.nodes c'
  | .named node name arguments, c, c', x, hnd, h => by
    obtain ⟨hnot, hnd⟩ := List.nodup_cons.mp hnd
    rcases runs_resolve_named h with ⟨shape, rfl, hbuiltin, hs⟩ |
      ⟨argument, y, c1, rfl, -, hr, hs⟩ | ⟨-, -, h⟩
    · refine Annotates.refl.setShape hnot ?_ hs
      rintro r ps rfl
      cases (builtin?_leaf hbuiltin).1
    · simp only [nodesAll, List.append_nil] at hnot hnd
      simpa only [nodes, nodesAll, List.append_nil] using
        (annotates_resolve hnd hr).setShape hnot (by simp) hs
    · exact (annotates_resolveDeclared h).mono (by simp [nodes])
  | .function node parameters none, c, c', x, hnd, h => by
    simp only [nodes, List.append_nil] at hnd ⊢
    obtain ⟨hnot, hnd⟩ := List.nodup_cons.mp hnd
    obtain ⟨slots, result, c1, c2, hslots, hr, hs⟩ := runs_resolve_function h
    have h1 := annotates_resolveAll hnd hslots
    cases hr
    refine (h1.alloc .void).setShape hnot ?_ hs
    rintro _ _ ⟨⟩
    exact .inl ⟨h1.size_le, by simp [Context.alloc]⟩
  | .function node parameters (some type), c, c', x, hnd, h => by
    simp only [nodes] at hnd ⊢
    obtain ⟨hnot, hnd⟩ := List.nodup_cons.mp hnd
    obtain ⟨hnd1, hnd2, hdisjoint⟩ := List.nodup_append'.mp hnd
    obtain ⟨slots, result, c1, c2, hslots, hr, hs⟩ := runs_resolve_function h
    have h1 := annotates_resolveAll hnd1 hslots
    refine (h1.trans (annotates_resolve hnd2 hr) hdisjoint).setShape hnot ?_ hs
    rintro _ _ ⟨⟩
    exact .inr ⟨type.node.id, List.mem_append_right _ type.node_mem_nodes, nodeType?_resolve hr⟩
  | .record node fields, c, c', x, hnd, h => by
    obtain ⟨hnot, hnd⟩ := List.nodup_cons.mp hnd
    obtain ⟨slots, c1, hslots, hs⟩ := runs_resolve_record.mp h
    exact (annotates_resolveFields hnd hslots).setShape hnot (by simp) hs
  | .inlineEnum node items, c, c', x, hnd, h => by
    obtain ⟨hnot, hnd⟩ := List.nodup_cons.mp hnd
    obtain ⟨slots, c1, hslots, hs⟩ := runs_resolve_inlineEnum.mp h
    exact (annotates_resolveItems hnd hslots).setShape hnot (by simp) hs

lemma annotates_resolveAll : ∀ {types : List TypeExpr} {c c' : Context} {slots : List Slot},
    (nodesAll types).Nodup → Runs (resolveAll tolerance types) c slots c' →
      c.Annotates (nodesAll types) c'
  | [], c, c', slots, _, h => by
    simp only [resolveAll, runs_pure] at h
    obtain ⟨-, rfl⟩ := h
    exact .refl
  | type :: rest, c, c', slots, hnd, h => by
    obtain ⟨hnd1, hnd2, hdisjoint⟩ := List.nodup_append'.mp hnd
    obtain ⟨x, c1, xs, hr, hrest, -⟩ := runs_resolveAll_cons.mp h
    exact (annotates_resolve hnd1 hr).trans (annotates_resolveAll hnd2 hrest) hdisjoint

lemma annotates_resolveFields : ∀ {fields : List FieldType} {c c' : Context}
    {slots : List (String × Slot)}, (FieldType.nodesAll fields).Nodup →
      Runs (resolveFields tolerance fields) c slots c' →
        c.Annotates (FieldType.nodesAll fields) c'
  | [], c, c', slots, _, h => by
    simp only [resolveFields, runs_pure] at h
    obtain ⟨-, rfl⟩ := h
    exact .refl
  | ⟨_, _, type⟩ :: rest, c, c', slots, hnd, h => by
    obtain ⟨hnd1, hnd2, hdisjoint⟩ := List.nodup_append'.mp hnd
    obtain ⟨x, c1, xs, hr, hrest, -⟩ := runs_resolveFields_cons.mp h
    exact (annotates_resolve hnd1 hr).trans (annotates_resolveFields hnd2 hrest) hdisjoint

lemma annotates_resolveItem : ∀ {item : EnumItem} {c c' : Context} {x : Slot},
    item.nodes.Nodup → Runs (resolveItem tolerance item) c x c' → c.Annotates item.nodes c'
  | ⟨node, name, payload⟩, c, c', x, hnd, h => by
    obtain ⟨hnot, hnd⟩ := List.nodup_cons.mp hnd
    obtain ⟨slots, c1, hslots, hs⟩ := runs_resolveItem.mp h
    exact (annotates_resolveAll hnd hslots).setShape hnot (by simp) hs

lemma annotates_resolveItems : ∀ {items : List EnumItem} {c c' : Context} {slots : List Slot},
    (EnumItem.nodesAll items).Nodup → Runs (resolveItems tolerance items) c slots c' →
      c.Annotates (EnumItem.nodesAll items) c'
  | [], c, c', slots, _, h => by
    simp only [resolveItems, runs_pure] at h
    obtain ⟨-, rfl⟩ := h
    exact .refl
  | item :: rest, c, c', slots, hnd, h => by
    obtain ⟨hnd1, hnd2, hdisjoint⟩ := List.nodup_append'.mp hnd
    obtain ⟨x, c1, xs, hr, hrest, -⟩ := runs_resolveItems_cons.mp h
    exact (annotates_resolveItem hnd1 hr).trans (annotates_resolveItems hnd2 hrest) hdisjoint

end

end TypeExpr

/-! ### Variables that are resolved on demand -/

namespace Resolving

variable {s : Resolving} {v w : VariableDecl}

/-- Nobody has begun to resolve the variable. -/
def Waits (s : Resolving) (v : VariableDecl) : Prop :=
  v.id ∉ s.resolved ∧ v.id ∉ s.resolving

/-- For what waits it makes no difference whether a variable is under way or resolved. -/
lemma waits_begun : (s.begun v).Waits w ↔ (s.done v).Waits w := by
  simp only [Waits, begun, done, List.mem_cons, not_or]
  tauto

lemma Waits.of_done (h : (s.done v).Waits w) : s.Waits w :=
  ⟨fun hm => h.1 (List.mem_cons_of_mem _ hm), h.2⟩

lemma not_waits_done : ¬ (s.done v).Waits v :=
  fun h => h.1 List.mem_cons_self

/-- What waits when a variable is settled has waited while it was under way. -/
lemma waits_of_settle {s1 : Resolving} (hresolving : s1.resolving = v.id :: s.resolving)
    (h : (Resolve.settle v.id s1).Waits w) : s1.Waits w := by
  obtain ⟨hw, hw'⟩ := h
  obtain ⟨hne, hw⟩ := not_or.mp (mt List.mem_cons.mpr hw)
  refine ⟨hw, fun hm => ?_⟩
  rw [hresolving] at hm
  rcases List.mem_cons.mp hm with hm | hm
  · exact hne hm
  · refine hw' ?_
    rw [Resolve.settle, hresolving]
    exact hm

end Resolving

/-! ### What inference may fill -/

/-- Inference fills only slots in `K`, from number `a` on, in the expressions. -/
def Context.Open (K : Slot → Prop) (a : Nat) (es : List Expr) (c : Context) : Prop :=
  ∃ P : Slot → Prop, (∀ x, P x → a ≤ x ∧ x < c.types.size ∧ K x) ∧
    ∀ e ∈ es, Laid c (fun x => a ≤ x ∧ x < c.types.size ∧ ¬ P x) P True (fun _ => True) e

namespace Context.Open

variable {K K' : Slot → Prop} {a : Nat} {es fs : List Expr} {c c' : Context} {e : Expr}

lemma nil : Open K a [] c := ⟨fun _ => False, by simp, by simp⟩

lemma still (he : e.isOpen = false) : Open K a [e] c :=
  ⟨fun _ => False, by simp, by simpa using Laid.still he trivial⟩

/-- What inference may fill stays so when new slots and types come along. -/
lemma frame (h : Open K a es c) (hK : ∀ x, K x → K' x) (hsize : c.types.size ≤ c'.types.size)
    (hget : ∀ x, a ≤ x → x < c.types.size → c'.types.get x = c.types.get x)
    (hn : ∀ n x, c.nodeType? n = some x → c'.nodeType? n = some x) : Open K' a es c' := by
  obtain ⟨P, hP, h⟩ := h
  refine ⟨P, fun x hx => ?_, fun e he => ?_⟩
  · obtain ⟨hle, hlt, hk⟩ := hP x hx
    exact ⟨hle, hlt.trans_le hsize, hK x hk⟩
  · exact (h e he).frame_eq (fun x hx => hget x hx.1 hx.2.1) hn
      (fun x hx => ⟨hx.1, hx.2.1.trans_le hsize, hx.2.2⟩) (fun _ h => h) fun _ h => h

/-- Expressions that were resolved one after the other. -/
lemma append (h1 : Open K a es c) (ha : a ≤ c.types.size) (h2 : Open K c.types.size fs c')
    (hsize : c.types.size ≤ c'.types.size)
    (hget : ∀ x, a ≤ x → x < c.types.size → c'.types.get x = c.types.get x)
    (hn : ∀ n x, c.nodeType? n = some x → c'.nodeType? n = some x) : Open K a (es ++ fs) c' := by
  obtain ⟨P, hP, h1⟩ := h1
  obtain ⟨Q, hQ, h2⟩ := h2
  refine ⟨fun x => P x ∨ Q x, ?_, List.forall_mem_append.mpr ⟨fun e he => ?_, fun e he => ?_⟩⟩
  · rintro x (hx | hx)
    · exact ⟨(hP x hx).1, (hP x hx).2.1.trans_le hsize, (hP x hx).2.2⟩
    · exact ⟨ha.trans (hQ x hx).1, (hQ x hx).2⟩
  · refine (h1 e he).frame_eq (fun x hx => hget x hx.1 hx.2.1) hn (fun x hx => ?_)
      (fun _ h => .inl h) fun _ h => h
    refine ⟨hx.1, hx.2.1.trans_le hsize, not_or.mpr ⟨hx.2.2, fun hq => ?_⟩⟩
    exact absurd (hQ x hq).1 (Nat.not_le.mpr hx.2.1)
  · refine (h2 e he).frame_eq (fun _ _ => rfl) (fun _ _ h => h) (fun x hx => ?_)
      (fun _ h => .inr h) fun _ h => h
    refine ⟨ha.trans hx.1, hx.2.1, not_or.mpr ⟨fun hp => ?_, hx.2.2⟩⟩
    exact absurd (hP x hp).2.1 (Nat.not_lt.mpr hx.1)

/-- Inference over one of the expressions leaves all of them as they have to be. -/
lemma infer (h : Open K a es c) (he : e ∈ es) {t : Slot} (hr : Runs (Infer.expr t e) c () c') :
    Writes K c c' ∧ Open K a es c' := by
  obtain ⟨P, hP, h⟩ := h
  have hw := (h e he).writes (fun _ hx => hx.2.2) hr
  refine ⟨hw.mono fun x hx => (hP x hx).2.2, P, fun x hx => ?_, fun e he => ?_⟩
  · obtain ⟨hle, hlt, hk⟩ := hP x hx
    exact ⟨hle, hlt.trans_eq hw.size.symm, hk⟩
  · refine (h e he).frame_eq (fun x hx => hw.get x hx.2.2) (fun n x hx => ?_) (fun x hx => ?_)
      (fun _ h => h) fun _ h => h
    · exact (hw.nodeType? n).trans hx
    · exact ⟨hx.1, hx.2.1.trans_eq hw.size.symm, hx.2.2⟩

end Context.Open

/-! ### Frames -/

namespace Resolving

open Context

/-- What is followed while expressions are resolved. `Sound` is about a state, `Fresh` about nodes
that are still to be given types, and `Advances` about what became of a state when nodes were given
types. A node is given its slot by `place`; the others keep what they have, apart from those that
names stand for, which get a slot when the name is looked up (`declared`). Slots may be written
that were allocated for the nodes at hand, those that are `Loose` (`writes`), but not any longer
when other nodes are given types (`recent`). -/
structure Frame where
  Sound : Resolving → Prop
  Fresh : List NodeId → Resolving → Prop
  Advances : List NodeId → Resolving → Resolving → Prop
  Loose : Resolving → Resolving → Slot → Prop
  sound {ns s s'} : Advances ns s s' → Sound s'
  size_le {ns s s'} : Advances ns s s' → s.types.size ≤ s'.types.size
  nodeType {ns s s' n x} : Advances ns s s' → s.nodeType? n = some x → s'.nodeType? n = some x
  untyped {ns s n} : Fresh ns s → n ∈ ns → s.nodeType? n = none
  fresh_mono {ms ns s} : Fresh ns s → (∀ n ∈ ms, n ∈ ns) → Fresh ms s
  fresh {ms ns s s'} : Fresh ns s → Advances ms s s' → ms.Disjoint ns → Fresh ns s'
  refl {s} : Sound s → Advances [] s s
  trans {ms ns s s1 s2} : Fresh (ms ++ ns) s → ms.Disjoint ns → Advances ms s s1 →
    Advances ns s1 s2 → Advances (ms ++ ns) s s2
  mono {ms ns s s'} : Advances ms s s' → (∀ n ∈ ms, n ∈ ns) → Advances ns s s'
  recent {ms ns s s1 s2} : Sound s → Fresh (ms ++ ns) s → ms.Disjoint ns → Advances ms s s1 →
    Advances ns s1 s2 → ∀ x, s.types.size ≤ x → x < s1.types.size →
      s2.types.get x = s1.types.get x
  place {s n x c} : Sound s → Fresh [n] s → Places n x s.toContext c →
    Advances [n] s { s with toContext := c }
  declared {ns s s1 d x c} : Sound s → s.Declared d → Advances ns s s1 → s1.slotOf d = (x, c) →
    Advances ns s { s1 with toContext := c }
  writes {ns s s1 c} : Advances ns s s1 → Writes (Loose s s1) s1.toContext c →
    Advances ns s { s1 with toContext := c }
  loose_place {ms s t n x y c} : Advances ms s t → Places n x t.toContext c →
    t.types.size ≤ y → y < c.types.size → Loose s { t with toContext := c } y
  loose_writes {ns s s1 y c} : Advances ns s s1 → Writes (Loose s s1) s1.toContext c →
    Loose s s1 y → Loose s { s1 with toContext := c } y
  loose_before {ms s s1 s2 y} : Advances ms s s1 → Loose s1 s2 y → Loose s s2 y
  loose_after {ns s s1 s2 y} : Sound s → Loose s s1 y → Advances ns s1 s2 → Loose s s2 y

namespace Frame

variable {F : Frame} {s s1 s2 : Resolving} {ms ns : List NodeId} {n : NodeId} {c : Context}
  {x y : Slot}

/-- Nodes that are still to be given types, all of them different. -/
structure Ahead (F : Frame) (ns : List NodeId) (s : Resolving) : Prop where
  sound : F.Sound s
  nodup : ns.Nodup
  fresh : F.Fresh ns s

namespace Ahead

variable {es : List Expr}

lemma tail (h : F.Ahead (n :: ns) s) : F.Ahead ns s :=
  ⟨h.sound, (List.nodup_cons.mp h.nodup).2, F.fresh_mono h.fresh fun _ => List.mem_cons_of_mem n⟩

lemma left (h : F.Ahead (ms ++ ns) s) : F.Ahead ms s :=
  ⟨h.sound, h.nodup.of_append_left, F.fresh_mono h.fresh fun _ => List.mem_append_left ns⟩

/-- The first of the nodes have got their types. -/
lemma right (h : F.Ahead (ms ++ ns) s) (ha : F.Advances ms s s1) : F.Ahead ns s1 :=
  ⟨F.sound ha, h.nodup.of_append_right, F.fresh (F.fresh_mono h.fresh fun _ =>
    List.mem_append_right ms) ha (List.disjoint_of_nodup_append h.nodup)⟩

lemma trans (h : F.Ahead (ms ++ ns) s) (h1 : F.Advances ms s s1) (h2 : F.Advances ns s1 s2) :
    F.Advances (ms ++ ns) s s2 :=
  F.trans h.fresh (List.disjoint_of_nodup_append h.nodup) h1 h2

/-- The node itself comes after its parts. -/
lemma node (h : F.Ahead (n :: ms) s) (ha : F.Advances ms s s1) : F.Fresh [n] s1 :=
  F.fresh (F.fresh_mono h.fresh (by simp)) ha (by simpa using (List.nodup_cons.mp h.nodup).1)

lemma step {t : Resolving} (h : F.Ahead (n :: ms) s) (ha : F.Advances ms s t)
    (hp : t.nodeType? n = none → Places n x t.toContext c) :
    F.Advances (n :: ms) s { t with toContext := c } := by
  have hn := h.node ha
  have hdisjoint : ms.Disjoint [n] := by simpa using (List.nodup_cons.mp h.nodup).1
  have hfresh : F.Fresh (ms ++ [n]) s := F.fresh_mono h.fresh (by simp [or_comm])
  have hplace := F.place (F.sound ha) hn (hp (F.untyped hn List.mem_cons_self))
  exact F.mono (F.trans hfresh hdisjoint ha hplace) (by simp [or_comm])

/-- A step that gives no types to nodes at hand. -/
lemma aside (h : F.Ahead ms s) (h1 : F.Advances ms s s1) (h2 : F.Advances [] s1 s2) :
    F.Advances ms s s2 :=
  F.mono (F.trans (F.fresh_mono h.fresh (by simp)) (by simp) h1 h2) (by simp)

/-- What inference may fill when expressions are resolved one after the other. -/
lemma isOpen_append {fs : List Expr} (h : F.Ahead (ms ++ ns) s) (h1 : F.Advances ms s s1)
    (h2 : F.Advances ns s1 s2) (ho1 : Open (F.Loose s s1) s.types.size es s1.toContext)
    (ho2 : Open (F.Loose s1 s2) s1.types.size fs s2.toContext) :
    Open (F.Loose s s2) s.types.size (es ++ fs) s2.toContext :=
  .append (ho1.frame (fun _ hx => F.loose_after h.sound hx h2) le_rfl (fun _ _ _ => rfl)
    fun _ _ h => h) (F.size_le h1)
    (ho2.frame (fun _ hx => F.loose_before h1 hx) le_rfl (fun _ _ _ => rfl) fun _ _ h => h)
    (F.size_le h2) (F.recent h.sound h.fresh (List.disjoint_of_nodup_append h.nodup) h1 h2)
    fun _ _ => F.nodeType h2

/-- A node gets its slot after the expressions have been resolved. -/
lemma isOpen_place (h : F.Ahead (n :: ms) s) (ha : F.Advances ms s s1)
    (hp : Places n x s1.toContext c) (ho : Open (F.Loose s s1) s.types.size es s1.toContext) :
    Open (F.Loose s { s1 with toContext := c }) s.types.size es c :=
  ho.frame (fun _ hx => F.loose_after h.sound hx (F.place (F.sound ha) (h.node ha) hp)) hp.size_le
    (fun z _ => hp.old z) fun _ _ => hp.keeps

end Ahead

/-- Inference over one of some expressions. -/
lemma infer {es : List Expr} {e : Expr} {t : Slot} (h : F.Advances ms s s1)
    (ho : Open (F.Loose s s1) s.types.size es s1.toContext) (he : e ∈ es)
    (hr : Runs (Infer.expr t e) s1.toContext () c) :
    F.Advances ms s { s1 with toContext := c } ∧
      Open (F.Loose s { s1 with toContext := c }) s.types.size es c ∧
      ∀ n, c.nodeType? n = s1.nodeType? n := by
  obtain ⟨hw, ho1⟩ := ho.infer he hr
  exact ⟨F.writes h hw, ho1.frame (fun _ hx => F.loose_writes h hw hx) le_rfl (fun _ _ _ => rfl)
    fun _ _ h => h, hw.nodeType?⟩

end Frame

end Resolving

/-! ### Expressions -/

namespace Resolve

open Context Resolving

variable {F : Frame} {plan : Plan} {demand : NodeId → Resolve Unit}
  {s s1 s2 s' : Resolving} {x y : Slot} {n : NodeId} {ms : List NodeId} {c : Context}
  {op : BinaryOp} {e left right : Expr} {elements : List Expr} {node : Node} {t : Resolving}
  {l r : Slot}

/-- What a demand may do. -/
abbrev Demands (F : Frame) (demand : NodeId → Resolve Unit) : Prop :=
  ∀ {s s' : Resolving} {n : NodeId}, F.Sound s → Runs (demand n) s () s' → F.Advances [] s s'

/-- What becomes of a state when an expression is resolved. -/
structure Resolves (F : Frame) (s : Resolving) (e : Expr) (x : Slot) (s' : Resolving) : Prop where
  advances : F.Advances e.nodes s s'
  nodeType : s'.nodeType? e.node.id = some x
  isOpen : Open (F.Loose s s') s.types.size [e] s'.toContext

/-- An expression whose node comes last, and that inference leaves alone. -/
lemma resolves_step (he : e.isOpen = false) (hnodes : e.nodes = e.node.id :: ms)
    (h : F.Ahead e.nodes s) (ha : F.Advances ms s t)
    (hc : t.nodeType? e.node.id = none → Places e.node.id x t.toContext c) :
    Resolves F s e x { t with toContext := c } := by
  rw [hnodes] at h
  refine ⟨hnodes ▸ h.step ha hc, ?_, .still he⟩
  exact (hc (F.untyped (h.node ha) List.mem_cons_self)).node

/-- A name, or a word for the class around: the node shares a slot with what was declared. -/
lemma resolves_name {d : NodeId} {z : Slot} {c1 : Context} (he : e.isOpen = false)
    (hnodes : e.nodes = [e.node.id]) (h : F.Ahead e.nodes s) (hd : s.Declared d)
    (ha : F.Advances [] s s1) (hslot : s1.slotOf d = (y, c1))
    (hb : c1.bind e.node.id z = (x, c)) : Resolves F s e x { s1 with toContext := c } :=
  resolves_step (t := { s1 with toContext := c1 }) he hnodes h (F.declared h.sound hd ha hslot)
    fun hn => .bind hn hb

lemma advances_checkAssignable {target found : Slot} {site : Site} (h : Resolves F s e x s1)
    (hr : Runs (checkAssignable target e found site) s1.toContext () c) :
    F.Advances e.nodes s { s1 with toContext := c } := by
  rcases (runs_checkAssignable hr).1 with ⟨-, -, hinfer⟩ | ⟨-, rfl⟩
  · exact (F.infer h.advances h.isOpen (List.mem_singleton_self e) hinfer).1
  · exact h.advances

/-- Elements are filled in place. -/
lemma advances_checkElements {anchor : Slot} :
    ∀ {es : List (Expr × Slot)} {i : Nat} {t : Resolving} {c : Context},
    (∀ p ∈ es, p.1 ∈ elements) →
      F.Advances ms s t → Open (F.Loose s t) s.types.size elements t.toContext →
      Runs (checkElements anchor i es) t.toContext () c →
        F.Advances ms s { t with toContext := c } ∧
          Open (F.Loose s { t with toContext := c }) s.types.size elements c
  | [], _, t, c, _, hadv, ho, h => by
    simp only [checkElements, runs_pure] at h
    obtain ⟨-, rfl⟩ := h
    exact ⟨hadv, ho⟩
  | (e, y) :: rest, i, t, c, hmem, hadv, ho, h => by
    obtain ⟨he, hrest⟩ := List.forall_mem_cons.mp hmem
    obtain ⟨c1, ⟨-, hinfer⟩ | ⟨-, rfl⟩, hr⟩ := runs_checkElements_cons h
    · obtain ⟨hadv1, ho1, -⟩ := F.infer hadv ho he hinfer
      exact advances_checkElements (t := { t with toContext := c1 }) hrest hadv1 ho1 hr
    · exact advances_checkElements hrest hadv ho hr

/-- An operator gets a slot after its operands have been resolved and filled. -/
lemma resolves_binary (h : F.Ahead (Expr.binary node op left right).nodes s)
    (ha : F.Advances (left.nodes ++ right.nodes) s t) (hl : t.nodeType? left.node.id = some l)
    (hr : t.nodeType? right.node.id = some r)
    (ho : Open (F.Loose s t) s.types.size [left, right] t.toContext)
    (hc : t.nodeType? node.id = none → Places node.id x t.toContext c) :
    Resolves F s (.binary node op left right) x { t with toContext := c } := by
  rw [Expr.nodes] at h
  have hp := hc (F.untyped (h.node ha) List.mem_cons_self)
  refine ⟨h.step ha hc, hp.node, ?_⟩
  obtain ⟨P, hP, ho'⟩ := h.isOpen_place ha hp ho
  exact ⟨P, hP, List.forall_mem_singleton.mpr (.binary trivial (hp.keeps hl) (hp.keeps hr) trivial
    (ho' _ (by simp)) (ho' _ (by simp)))⟩

lemma resolves_binaryRule (hs : F.Ahead (Expr.binary node op left right).nodes s)
    (ha : F.Advances (left.nodes ++ right.nodes) s s1) (hl : s1.nodeType? left.node.id = some l)
    (hr : s1.nodeType? right.node.id = some r)
    (ho : Open (F.Loose s s1) s.types.size [left, right] s1.toContext)
    (h : Runs (binaryRule node op left right l r) s1.toContext x c) :
    Resolves F s (.binary node op left right) x { s1 with toContext := c } := by
  rcases runs_binaryRule h with ⟨-, h⟩ | ⟨-, c1, hinfer, -, h⟩
  · exact resolves_binary hs ha hl hr ho fun hn => .setShape hn (runs_isRule h).2
  · obtain ⟨ha1, ho1, hnodes⟩ :
        F.Advances (left.nodes ++ right.nodes) s { s1 with toContext := c1 } ∧
        Open (F.Loose s { s1 with toContext := c1 }) s.types.size [left, right] c1 ∧
        ∀ n, c1.nodeType? n = s1.nodeType? n := by
      rcases runs_inferOperands hinfer with ⟨-, -, hi⟩ | ⟨-, -, hi⟩ | ⟨-, -, rfl⟩
      · exact F.infer ha ho (by simp) hi
      · exact F.infer ha ho (by simp) hi
      · exact ⟨ha, ho, fun _ => rfl⟩
    have hc : c1.nodeType? node.id = none → Places node.id x c1 c := by
      intro hn
      rcases h with hset | ⟨c2, hslot, rfl⟩
      · exact .setShape hn hset
      · exact .copy hn hslot
    exact resolves_binary (t := { s1 with toContext := c1 }) hs ha1 ((hnodes _).trans hl)
      ((hnodes _).trans hr) ho1 hc

lemma resolves_arrayRule {slots : List Slot} (hs : F.Ahead (node.id :: Expr.nodesAll elements) s)
    (ha : F.Advances (Expr.nodesAll elements) s s1)
    (ho : Open (F.Loose s s1) s.types.size elements s1.toContext)
    (h : Runs (arrayRule node elements slots) s1.toContext x c) :
    Resolves F s (.array node elements) x { s1 with toContext := c } := by
  obtain ⟨c1, shape, hshape, hset⟩ := runs_arrayRule h
  obtain ⟨ha1, ho1⟩ : F.Advances (Expr.nodesAll elements) s { s1 with toContext := c1 } ∧
      Open (F.Loose s { s1 with toContext := c1 }) s.types.size elements c1 := by
    rcases hshape with ⟨anchor, -, hcheck, -⟩ | ⟨-, rfl, -⟩
    · exact advances_checkElements (fun p hp => (List.of_mem_zip hp).1) ha ho hcheck
    · exact ⟨ha, ho⟩
  have hn := hs.node ha1
  have hnone : c1.nodeType? node.id = none := F.untyped hn List.mem_cons_self
  have hp : Places node.id x c1 c := .alloc (.setShape hnone hset)
  have hplace : F.Advances [node.id] { s1 with toContext := c1 } { s1 with toContext := c } :=
    F.place (F.sound ha1) hn hp
  refine ⟨hs.step (t := { s1 with toContext := c1 }) ha1 fun _ => hp, hp.node, ?_⟩
  have hsize : s.types.size ≤ c1.types.size := F.size_le ha1
  obtain ⟨hx, hsize', hliteral, -, hrest⟩ := setShape_alloc hnone hset
  obtain ⟨P, hP, hl⟩ := ho1
  refine ⟨fun z => P z ∨ z = c1.types.size, ?_,
    List.forall_mem_singleton.mpr (.array hp.node ?_ hliteral (.inl (.inr rfl)) fun e he => ?_)⟩
  · rintro z (hz | rfl)
    · obtain ⟨hle, hlt, hloose⟩ := hP z hz
      exact ⟨hle, hlt.trans_le hp.size_le, F.loose_after hs.sound hloose hplace⟩
    · exact ⟨hsize, by lia, F.loose_place (t := { s1 with toContext := c1 }) ha1 hp le_rfl (by lia)⟩
  · refine ⟨by lia, by lia, not_or.mpr ⟨fun hp => ?_, by lia⟩⟩
    have := (hP x hp).2.1
    lia
  · refine (hl e he).frame_eq (fun z hz => hrest z hz.2.1) (fun _ _ => hp.keeps) (fun z hz => ?_)
      (fun _ h => .inl h) fun _ h => h
    exact ⟨hz.1, hz.2.1.trans_le hp.size_le, not_or.mpr ⟨hz.2.2, by lia⟩⟩

/-- A literal of its own slot, which inference may fill. -/
lemma resolves_literal {shape : Shape} (hnodes : e.nodes = [e.node.id]) (h : F.Ahead e.nodes s)
    (hlaid : ∀ {c Z P}, c.nodeType? e.node.id = some x → P x → Laid c Z P True (fun _ => True) e)
    (hset : s.setShape e.node.id shape = (x, c)) : Resolves F s e x { s with toContext := c } := by
  rw [hnodes] at h
  have hnone := F.untyped h.fresh List.mem_cons_self
  have hp : Places e.node.id x s.toContext c := .setShape hnone hset
  refine ⟨?_, hp.node, (· = x), ?_, List.forall_mem_singleton.mpr (hlaid hp.node rfl)⟩
  · exact hnodes ▸ h.step (F.refl h.sound) fun _ => hp
  · rintro _ rfl
    rw [setShape_of_none hnone] at hset
    cases hset
    exact ⟨le_rfl, by simp, F.loose_place (F.refl h.sound) hp le_rfl (by simp)⟩

/-! ### The walk over expressions -/

variable {g : Expr → Resolve Slot → Resolve Slot} {d d' : NodeId → Resolve Unit}

/-- Something is done around the parts of an expression that makes no difference, and demands are
answered in the same way. -/
structure Attends (F : Frame) (g : Expr → Resolve Slot → Resolve Slot)
    (d d' : NodeId → Resolve Unit) : Prop where
  around : ∀ {e s} y, F.Ahead e.nodes s → (g e y).outcome s = y.outcome s
  demand : ∀ {s} n, F.Sound s → Follows (d n) (d' n) s fun _ s' => F.Advances [] s s'

lemma Attends.part {x y : Resolve Slot} {Q : Slot → Resolving → Prop} (h : Attends F g d d')
    (ha : F.Ahead e.nodes s) (hx : Follows x y s Q) : Follows x (g e y) s Q :=
  ⟨(h.around y ha).trans hx.same, hx.value⟩

/-- The name of a type instead of a value. -/
lemma follows_operandOrType {y : Resolve Slot} (ha : F.Ahead e.nodes s)
    (h : Follows (expr plan d e) y s fun x s' => Resolves F s e x s') :
    Follows (operandOrType e (expr plan d e)) (operandOrType e y) s
      fun r s' => Resolves F s e r.1 s' := by
  refine follows_check_bind fun r c hr => ?_
  rcases runs_typeName hr with ⟨rfl, rfl⟩ | ⟨name, n, z, c1, x, rfl, rfl, -, hn, hslot, hb⟩
  · exact h.bind fun _ _ hx => .pure hx
  · exact .pure
      (resolves_name rfl rfl ha (declared_of_declarationOf? hn) (F.refl ha.sound) hslot hb)

/-- A member of an object, which may have to be resolved first. -/
lemma follows_memberRule {object : Expr} {name : Ident} {z : Slot} (hA : Attends F g d d')
    (ha : F.Ahead (Expr.member node object name).nodes s) (h : F.Advances object.nodes s s1) :
    Follows (memberRule plan d node object name z) (memberRule plan d' node object name z) s1
      fun x s' => Resolves F s (.member node object name) x s' := by
  have hobject : F.Ahead object.nodes s := ha.tail
  refine .get_bind ?_
  dsimp only
  split
  · split
    · exact .of_runs fun _ _ hr => absurd hr runs_fail
    · next field _ =>
      have hbind : ∀ s2, F.Advances object.nodes s s2 →
          Follows (liftM (Check.bind node.id field) : Resolve Slot)
            (liftM (Check.bind node.id field))
            s2 fun x s' => Resolves F s (.member node object name) x s' := fun s2 h2 =>
        follows_check fun _ _ hb => resolves_step rfl rfl ha h2 fun hn =>
          .bind hn (Check.runs_bindNode.mp hb)
      split
      · exact (hA.demand _ (F.sound h)).bind fun _ _ h2 => hbind _ (hobject.aside h h2)
      · exact hbind _ h
  · split
    · exact follows_check fun _ _ hs => resolves_step rfl rfl ha h fun hn =>
        .slotOf hn (Check.runs_slotOf.mp hs)
    · exact .of_runs fun _ _ hr => absurd hr runs_fail

mutual

/-- **Resolving an expression**: it gives types to its own nodes, and inference fills slots that
are new. -/
lemma follows_expr (hA : Attends F g d d') : ∀ {e : Expr} {s : Resolving}, F.Ahead e.nodes s →
    Follows (expr plan d e) (g e (exprBy g plan d' e)) s fun x s' => Resolves F s e x s' := by
  intro e s ha
  refine hA.part ha ?_
  match e with
  | .literal node value =>
    simp only [exprBy, expr]
    refine follows_check fun x c hset => ?_
    rw [Check.runs_setShape] at hset
    cases value with
    | null => exact resolves_literal rfl ha (fun hx hP => .null hx hP) hset
    | _ => exact resolves_step rfl rfl ha (F.refl ha.sound) fun hn => .setShape hn hset
  | .identifier name =>
    simp only [exprBy, expr, identifier]
    refine .get_bind ?_
    split
    · next n hn =>
      refine (hA.demand n ha.sound).bind fun _ s1 h1 => follows_check_bind fun y c1 hslot =>
        follows_check fun x c hb => ?_
      change Resolves F s _ x { s1 with toContext := c }
      exact resolves_name rfl rfl ha (declared_of_declarationOf? hn) h1
        (Check.runs_slotOf.mp hslot) (Check.runs_bindNode.mp hb)
    · exact .of_runs fun _ _ hr => absurd hr runs_fail
  | .self node =>
    simp only [exprBy, expr]
    refine follows_check fun x c hr => ?_
    obtain ⟨id, sc, y, c1, henc, hsc, hslot, hb⟩ := runs_selfRule hr
    exact resolves_name rfl rfl ha (declared_of_enclosing henc hsc) (F.refl ha.sound) hslot hb
  | .super node =>
    simp only [exprBy, expr]
    refine follows_check fun x c hr => ?_
    obtain ⟨id, sc, y, c1, b, henc, hsc, hslot, -, hb⟩ := runs_superRule hr
    exact resolves_name rfl rfl ha (declared_of_enclosing henc hsc) (F.refl ha.sound) hslot hb
  | .call node callee arguments =>
    have hparts : F.Ahead (callee.nodes ++ Expr.nodesAll arguments) s := ha.tail
    simp only [exprBy, expr]
    refine (follows_operandOrType hparts.left (follows_expr hA hparts.left)).bind fun r s1 h1 => ?_
    obtain ⟨y, isType⟩ := r
    refine follows_check_bind fun ps c hps => ?_
    obtain ⟨rfl, ⟨rfl, -⟩ | ⟨r, params, rfl, -⟩⟩ := runs_callParameters hps
    · refine follows_check fun x c hb => resolves_step rfl rfl ha ?_ fun hn =>
        .bind hn (Check.runs_bindNode.mp hb)
      exact F.mono h1.advances fun _ => List.mem_append_left _
    · refine (follows_callArguments hA (hparts.right h1.advances)).bind fun _ s2 h2 =>
        .get_bind (follows_check fun x c hb => ?_)
      exact resolves_step rfl rfl ha (hparts.trans h1.advances h2) fun hn =>
        .bind hn (Check.runs_bindNode.mp hb)
  | .binary node op left right =>
    have hparts : F.Ahead (left.nodes ++ right.nodes) s := ha.tail
    simp only [exprBy, expr]
    refine (follows_expr hA hparts.left).bind fun l s1 h1 => ?_
    have hright := hparts.right h1.advances
    have hrule : ∀ r s2, Resolves F s1 right r s2 →
        Follows (liftM (binaryRule node op left right l r) : Resolve Slot)
          (liftM (binaryRule node op left right l r)) s2
          fun x s' => Resolves F s (.binary node op left right) x s' := by
      intro r s2 h2
      refine follows_check fun x c hrule => ?_
      exact resolves_binaryRule ha (hparts.trans h1.advances h2.advances)
        (F.nodeType h2.advances h1.nodeType) h2.nodeType
        (hparts.isOpen_append h1.advances h2.advances h1.isOpen h2.isOpen) hrule
    split
    · refine .bind (P := fun r s2 => Resolves F s1 right r s2) ?_ hrule
      exact (follows_operandOrType hright (follows_expr hA hright)).bind fun _ _ h => .pure h
    · exact (follows_expr hA hright).bind hrule
  | .unary node op operand =>
    simp only [exprBy, expr]
    refine (follows_expr hA ha.tail).bind fun y s1 h1 => follows_check fun x c hrule => ?_
    refine resolves_step rfl rfl ha h1.advances fun hn => ?_
    rcases (runs_unaryRule hrule).2 with hset | ⟨c2, hslot, rfl⟩
    · exact .setShape hn hset
    · exact .copy hn hslot
  | .member node object name =>
    have hobject : F.Ahead object.nodes s := ha.tail
    simp only [exprBy, expr]
    refine (follows_operandOrType hobject (follows_expr hA hobject)).bind fun r s1 h1 => ?_
    obtain ⟨y, isType⟩ := r
    cases isType with
    | true => exact follows_check fun x c hr =>
        resolves_step rfl rfl ha h1.advances fun hn => .bind hn (runs_itemRule hr)
    | false => exact follows_memberRule hA ha h1.advances
  | .index node array position =>
    have hparts : F.Ahead (array.nodes ++ position.nodes) s := ha.tail
    simp only [exprBy, expr]
    refine (follows_expr hA hparts.left).bind fun a s1 h1 => ?_
    refine (follows_expr hA (hparts.right h1.advances)).bind fun p s2 h2 =>
      follows_check fun x c hrule => ?_
    refine resolves_step rfl rfl ha (hparts.trans h1.advances h2.advances) fun hn => ?_
    rcases runs_indexRule hrule with ⟨-, hslot⟩ | ⟨element, -, -, hb⟩
    · exact .slotOf hn hslot
    · exact .bind hn hb
  | .assign node target value =>
    have hparts : F.Ahead (target.nodes ++ value.nodes) s := ha.tail
    simp only [exprBy, expr]
    split
    · exact .of_runs fun _ _ hr => by simp at hr
    refine (follows_expr hA hparts.left).bind fun t s1 h1 => ?_
    refine (follows_expr hA (hparts.right h1.advances)).bind fun v s2 h2 =>
      follows_check fun x c hrule => ?_
    obtain ⟨-, -, c2, hcheck, hb⟩ := runs_assignRule hrule
    exact resolves_step (t := { s2 with toContext := c2 }) rfl rfl ha
      (hparts.trans h1.advances (advances_checkAssignable h2 hcheck)) fun hn => .bind hn hb
  | .array node elements =>
    simp only [exprBy, expr]
    refine (follows_exprs hA ha.tail).bind fun slots s1 h1 => follows_check fun x c hrule => ?_
    exact resolves_arrayRule ha h1.1 h1.2 hrule
  | .record node values =>
    have ha : F.Ahead (node.id :: FieldValue.nodesAll values) s := ha
    simp only [exprBy, expr]
    refine (follows_fieldValues hA ha.tail).bind fun slots s1 h1 =>
      .get_bind (follows_check fun x c hset => ?_)
    obtain ⟨hadv, ho⟩ := h1
    have hp : Places node.id x s1.toContext c :=
      .setShape (F.untyped (ha.node hadv) List.mem_cons_self) (Check.runs_setShape.mp hset)
    refine ⟨ha.step hadv fun _ => hp, hp.node, ?_⟩
    obtain ⟨P, hP, hl⟩ := ha.isOpen_place hadv hp ho
    refine ⟨P, hP, List.forall_mem_singleton.mpr (.record trivial fun f hf => hl _ ?_)⟩
    exact List.mem_map_of_mem hf
  | .shorthand node item =>
    simp only [exprBy, expr]
    refine follows_check fun x c hset => ?_
    exact resolves_literal rfl ha (fun hx hP => .shorthand hx hP) (Check.runs_setShape.mp hset)

lemma follows_exprs (hA : Attends F g d d') : ∀ {es : List Expr} {s : Resolving},
    F.Ahead (Expr.nodesAll es) s → Follows (exprs plan d es) (exprsBy g plan d' es) s
      fun _ s' => F.Advances (Expr.nodesAll es) s s' ∧
        Open (F.Loose s s') s.types.size es s'.toContext
  | [], s, ha => by
    simp only [exprsBy, exprs]
    exact .pure ⟨F.refl ha.sound, .nil⟩
  | e :: rest, s, ha => by
    have ha : F.Ahead (e.nodes ++ Expr.nodesAll rest) s := ha
    simp only [exprsBy, exprs]
    refine (follows_expr hA ha.left).bind fun x s1 h1 => ?_
    refine (follows_exprs hA (ha.right h1.advances)).bind fun xs s2 h2 => .pure ?_
    exact ⟨ha.trans h1.advances h2.1, ha.isOpen_append h1.advances h2.1 h1.isOpen h2.2⟩

lemma follows_fieldValues (hA : Attends F g d d') : ∀ {vs : List FieldValue} {s : Resolving},
    F.Ahead (FieldValue.nodesAll vs) s → Follows (fieldValues plan d vs)
      (fieldValuesBy g plan d' vs) s
      fun _ s' => F.Advances (FieldValue.nodesAll vs) s s' ∧
        Open (F.Loose s s') s.types.size (vs.map (·.value)) s'.toContext
  | [], s, ha => by
    simp only [fieldValuesBy, fieldValues]
    exact .pure ⟨F.refl ha.sound, .nil⟩
  | ⟨node, name, e⟩ :: rest, s, ha => by
    have ha : F.Ahead (e.nodes ++ FieldValue.nodesAll rest) s := ha
    simp only [fieldValuesBy, fieldValues]
    refine (follows_expr hA ha.left).bind fun x s1 h1 => ?_
    refine (follows_fieldValues hA (ha.right h1.advances)).bind fun xs s2 h2 => .pure ?_
    exact ⟨ha.trans h1.advances h2.1, ha.isOpen_append h1.advances h2.1 h1.isOpen h2.2⟩

lemma follows_callArguments (hA : Attends F g d d') {callee : String} :
    ∀ {arguments : List Expr} {params : List (String × Slot)} {i : Nat} {s : Resolving},
      F.Ahead (Expr.nodesAll arguments) s →
      Follows (callArguments plan d callee i arguments params)
        (callArgumentsBy g plan d' callee i arguments params) s
        fun _ s' => F.Advances (Expr.nodesAll arguments) s s'
  | [], _, _, s, ha | e :: rest, [], _, s, ha => by
    simp only [callArgumentsBy, callArguments]
    exact .pure (F.mono (F.refl ha.sound) (by simp))
  | e :: rest, (p, expected) :: params, i, s, ha => by
    have ha : F.Ahead (e.nodes ++ Expr.nodesAll rest) s := ha
    simp only [callArgumentsBy, callArguments]
    refine (follows_expr hA ha.left).bind fun found s1 h => follows_check_bind fun _ c hcheck => ?_
    have h1 := advances_checkAssignable h hcheck
    exact (follows_callArguments hA (ha.right h1)).imp fun _ _ h2 => ha.trans h1 h2

end

lemma Demands.attends (hd : Demands F demand) : Attends F (fun _ y => y) demand demand :=
  ⟨fun _ _ => rfl, fun _ hs => .of_runs fun _ _ h => hd hs h⟩

lemma resolves_expr (hd : Demands F demand) (ha : F.Ahead e.nodes s)
    (h : Runs (expr plan demand e) s x s') : Resolves F s e x s' :=
  (follows_expr hd.attends ha).value x s' h

end Resolve

end Sema
