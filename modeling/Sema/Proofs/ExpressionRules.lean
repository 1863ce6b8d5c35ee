import Mathlib.Order.ConditionallyCompleteLattice.Basic
import Sema.Proofs.Agreement
import Sema.Proofs.Completing
import Sema.Proofs.OnDemand

/-!
Expressions obey the rules. Where a rule looks at types that are complete, what it finds stays true,
since all of them are settled by then. Where it looks away because a type is incomplete, nothing
comes later that would complete it: a settled type stays incomplete, and inference does not come
back to the parts of calls, assignments and elements. Only below arrays, records and operators
slots stay reserved for inference, until the expression around is done.
-/

namespace Sema

/-- Whether the shape is that of a function. -/
def Shape.isFunction : Shape → Bool
  | .function .. => true
  | _ => false

lemma Alike.isFunction {q : Prop} {t t' : TypeStore} {a b : Shape} (h : Alike q t t' a b) :
    b.isFunction = a.isFunction :=
  h.congr_nominal Shape.isFunction false (fun s => by cases s <;> rfl) (fun _ _ _ => rfl)
    (fun _ _ _ _ => rfl) fun _ _ _ => rfl

/-- Only classes have fields. -/
lemma Shape.nominal_of_mem_fields {shape : Shape} {f : String × Slot} (h : f ∈ shape.fields) :
    shape.nominalName? ≠ none ∧ f.2 ∈ shape.handles := by
  cases shape with
  | object scope base name fields =>
    exact ⟨Option.some_ne_none name,
      List.mem_append_right _ (List.mem_append_right _ (List.mem_map_of_mem h))⟩
  | _ => cases h

namespace TypeStore

variable {t : TypeStore} {x : Slot}

lemma valueOf_of_not_function (h : (t.get x).isFunction = false) : t.valueOf x = x := by
  unfold valueOf
  split
  · next hget => simp [hget, Shape.isFunction] at h
  · rfl

/-- What is deferred is incomplete. -/
lemma not_deferred_of_complete (h : t.isIncomplete x = false) : t.hasDeferred x = false := by
  simp only [isIncomplete, hasDeferred, List.any_eq_false] at h ⊢
  intro p hp hd
  refine h p hp ?_
  cases hshape : t.get p <;> simp_all [Shape.isDeferred, Shape.isPlaceholder]

end TypeStore

namespace Outlook

open Sema.Action Context Resolving Resolve

variable {G : Outlook} {Q Q' P P' P1 P2 : Slot → Prop} {s s1 s2 s' : Resolving} {x y z t : Slot}
  {n : NodeId} {c : Context} {e : Expr} {es : List Expr} {xs : List Slot} {ns : List NodeId}
  {demand : NodeId → Resolve Unit}

/-! ### What is known of an expression -/

/-- The node is complete later on, so its slot is complete already. -/
lemma Later.complete (h : G.Later Q s Q' s') (hx : s.nodeType? n = some x) (hset : G.Settled Q s x)
    (hc : s'.Complete n) : s.types.isIncomplete x = false := by
  obtain ⟨y, hy, hcomplete⟩ := hc
  obtain rfl : y = x := Option.some.inj (hy.symm.trans (h.nodeType n x hx))
  rw [← h.isIncomplete hset]
  exact hcomplete

/-- The expression has the slot `x`, which is settled, and all its parts will obey the rules. -/
structure Known (G : Outlook) (Q : Slot → Prop) (s : Resolving) (e : Expr) (x : Slot) : Prop where
  node : s.nodeType? e.node.id = some x
  settled : G.Settled Q s x
  obeys : G.Assures Q s e.nodes fun c => e.Sound c

lemma Known.later (h : G.Known Q s e x) (hl : G.Later Q s Q' s') : G.Known Q' s' e x :=
  ⟨hl.nodeType _ x h.node, hl.settled x h.settled, h.obeys.later hl⟩

/-- The expression is lawful if its parts are. -/
lemma assures_sound (hown : G.Assures Q s e.nodes fun c => e.Lawful c)
    (hparts : ∀ d, .expression d ∈ (Piece.expression e).children →
      G.Assures Q s d.nodes fun c => d.Sound c) : G.Assures Q s e.nodes fun c => e.Sound c := by
  intro Q' s' hl hc
  refine Expr.sound_iff.mpr ⟨hown Q' s' hl hc, fun d hd => hparts d hd Q' s' hl fun n hn => hc n ?_⟩
  cases e <;> simp [Piece.children] at hd <;>
    simp only [Expr.nodes, List.mem_cons, List.mem_append, Expr.mem_nodesAll,
      FieldValue.mem_nodesAll] <;> grind

/-- What is known of an expression while the slots in `P` are reserved for inference. -/
structure Held (G : Outlook) (Q P : Slot → Prop) (s : Resolving) (e : Expr) (x : Slot) : Prop where
  node : s.nodeType? e.node.id = some x
  settled : G.Settled Q s x
  /-- The slot leads to reserved ones only where something is deferred in it. -/
  closed : (s.types.hasDeferred x = false ∨ (s.types.get x).isFunction = true) →
    G.Settled (Q ⊔ P) s x
  ready : G.Ready (Q ⊔ P) P s e
  obeys : G.Assures (Q ⊔ P) s e.nodes fun c => e.Sound c
  typed : e.selfTyped = true → s.types.hasDeferred x = false ∨ G.Doomed (Q ⊔ P) s e.nodes

lemma close_sup : G.Later (Q ⊔ P) s Q s := .close fun _ => .inl

namespace Held

lemma known (h : G.Held Q P s e x) : G.Known Q s e x :=
  ⟨h.node, h.settled, h.obeys.later close_sup⟩

/-- Nothing is reserved where the slot of the expression is settled. -/
lemma of_known (h : G.Known Q s e x) (hready : G.Ready Q ⊥ s e) : G.Held Q ⊥ s e x := by
  have hbot : Q ⊔ ⊥ = Q := sup_bot_eq Q
  refine ⟨h.node, h.settled, fun _ => ?_, ?_, ?_, fun _ => ?_⟩ <;> rw [hbot]
  · exact h.settled
  · exact hready
  · exact h.obeys
  · rw [or_iff_not_imp_right]
    intro hlive
    exact TypeStore.not_deferred_of_complete
      (complete_of_live hlive e.node_mem_nodes h.node h.settled)

/-- Other slots may be reserved as well. -/
lemma rebase (h : G.Held (Q ⊔ P1) P2 s e x) : G.Held Q (P1 ⊔ P2) s e x := by
  obtain ⟨hnode, hset, hclosed, hready, hobeys, htyped⟩ := h
  rw [sup_assoc] at hclosed hready hobeys htyped
  exact ⟨hnode, hset.weaken fun _ => .inl, hclosed,
    hready.frame_eq (fun _ _ => rfl) (fun _ _ h => h) (fun _ h => h) (fun _ => .inr) fun _ h => h,
    hobeys, htyped⟩

/-- What is held goes on being held when other expressions are resolved. -/
lemma later (h : G.Held Q P s e x) (hs : G.Stage (Q ⊔ P) s) (hl : G.Later (Q ⊔ P) s (Q ⊔ P') s')
    (hl0 : G.Later Q s Q s') (hP : ∀ x, P x → P' x) : G.Held Q P' s' e x where
  node := hl.nodeType _ x h.node
  settled := hl0.settled x h.settled
  closed hx := hl.settled x (h.closed (hx.imp (hl0.hasDeferred h.settled).symm.trans
    (hl0.alike h.settled).isFunction.symm.trans))
  ready := h.ready.later hs hl hP
  obeys := h.obeys.later hl
  typed he := (h.typed he).imp (fun hd => (hl0.hasDeferred h.settled).trans hd) (·.later hl)

end Held

/-! ### Expressions one after the other -/

/-- The expressions have been resolved to the slots `xs`. -/
def Walked (G : Outlook) (Q : Slot → Prop) (s : Resolving) (es : List Expr) (xs : List Slot)
    (s' : Resolving) : Prop :=
  ∃ P : Slot → Prop, (∀ x, P x → s.types.size ≤ x) ∧ G.Stage (Q ⊔ P) s' ∧
    List.Forall₂ (G.Held Q P s') es xs

namespace Walked

lemma nil (hs : G.Stage Q s) : G.Walked Q s [] [] s :=
  ⟨⊥, fun _ => False.elim, by rwa [sup_bot_eq], .nil⟩

/-- Nothing stays reserved. -/
lemma close (h : G.Walked Q s es xs s') :
    G.Stage Q s' ∧ List.Forall₂ (G.Known Q s') es xs := by
  obtain ⟨P, -, hs, hheld⟩ := h
  exact ⟨hs.close fun _ => .inl, hheld.imp fun _ _ => Held.known⟩

lemma known (h : G.Walked Q s [e] [x] s') : G.Stage Q s' ∧ G.Known Q s' e x := by
  obtain ⟨hs, hk⟩ := h.close
  exact ⟨hs, (List.forall₂_cons.mp hk).1⟩

/-- First one expression, then others. -/
lemma cons (h : G.Walked Q s [e] [x] s1) (ha : Advances G.groundwork ns s1 s')
    (hsize : s.types.size ≤ s1.types.size)
    (hrest : ∀ Q, G.Stage Q s1 → G.Walked Q s1 es xs s') :
    G.Walked Q s (e :: es) (x :: xs) s' := by
  obtain ⟨P1, hnew1, hs1, hheld1⟩ := h
  obtain ⟨P2, hnew2, hs2, hheld2⟩ := hrest _ hs1
  have hl : G.Later (Q ⊔ P1) s1 (Q ⊔ P1 ⊔ P2) s' := .of_advances ha hs1 fun x hx =>
    hx.imp_right fun hx => ⟨hnew2 x hx, hs2.not_pinned (.inr hx)⟩
  have hl0 : G.Later Q s1 Q s' := .of_advances ha (hs1.close fun _ => .inl) fun _ => .inl
  rw [sup_assoc] at hs2 hl
  refine ⟨P1 ⊔ P2, fun x hx => hx.elim (hnew1 x) fun hx => hsize.trans (hnew2 x hx), hs2, ?_⟩
  obtain ⟨hheld1, -⟩ := List.forall₂_cons.mp hheld1
  exact .cons (hheld1.later hs1 hl hl0 fun _ => .inl) (hheld2.imp fun _ _ => Held.rebase)

end Walked

/-! ### Expressions that wait to be resolved -/

/-- Whatever is under way needs the variable. -/
def Below (G : Outlook) (s : Resolving) (v : VariableDecl) : Prop :=
  G.strict → ∀ u ∈ G.program.variables, u.id ∈ s.resolving →
    Relation.TransGen G.program.Refers u v

/-- Nodes that are to be resolved, in which the names occur, while at most `k` variables wait. -/
structure Awaits (G : Outlook) (k : Nat) (Q : Slot → Prop) (ns : List NodeId) (names : List String)
    (s : Resolving) : Prop where
  stage : G.Stage Q s
  fresh : Fresh G.groundwork.vars ns s
  nodup : ns.Nodup
  few : (G.plan.waiting s).card ≤ k
  below : ∀ v ∈ G.program.variables, v.name.name ∈ names → G.Below s v

lemma card_waiting_le_of_advances (ha : Advances G.groundwork ns s s') :
    (G.plan.waiting s').card ≤ (G.plan.waiting s).card := by
  refine Finset.card_le_card fun n hn => ?_
  simp only [Plan.waiting, Finset.mem_filter] at hn ⊢
  refine ⟨hn.1, fun ht => hn.2 ?_⟩
  exact ht.imp (ha.resolved n) fun h => ha.resolving ▸ h

namespace Awaits

variable {k : Nat} {ms : List NodeId} {names names' : List String}

lemma ahead (h : G.Awaits k Q ns names s) : G.groundwork.frame.Ahead ns s :=
  ⟨h.stage.footing, h.nodup, h.fresh⟩

lemma mono (h : G.Awaits k Q ns names s) (hns : ms.Sublist ns) (hnames : ∀ a ∈ names', a ∈ names) :
    G.Awaits k Q ms names' s :=
  ⟨h.stage, h.fresh.mono hns.subset, h.nodup.sublist hns, h.few,
    fun v hv ha => h.below v hv (hnames _ ha)⟩

/-- The parts of what waits, of which the first have been resolved. -/
lemma next (h : G.Awaits k Q (ms ++ ns) names s) (ha : Advances G.groundwork ms s s')
    (hs : G.Stage Q' s') : G.Awaits k Q' ns names s' where
  stage := hs
  fresh := (h.fresh.mono fun _ => List.mem_append_right _).advances ha
    (List.disjoint_of_nodup_append h.nodup)
  nodup := h.nodup.sublist (List.sublist_append_right ms ns)
  few := (card_waiting_le_of_advances ha).trans h.few
  below v hv hn hstrict u hu hr := h.below v hv hn hstrict u hu (ha.resolving ▸ hr)

lemma tail (h : G.Awaits k Q (n :: ns) names s) : G.Awaits k Q ns names s :=
  h.mono (List.sublist_cons_self n ns) fun _ h => h

lemma left (h : G.Awaits k Q (ms ++ ns) (names ++ names') s) : G.Awaits k Q ms names s :=
  h.mono (List.sublist_append_left ms ns) fun _ => List.mem_append_left _

lemma right (h : G.Awaits k Q (ms ++ ns) (names ++ names') s) (ha : Advances G.groundwork ms s s')
    (hs : G.Stage Q' s') : G.Awaits k Q' ns names' s' :=
  (h.next ha hs).mono (.refl ns) fun _ => List.mem_append_right _

/-- The node itself comes last. -/
lemma node (h : G.Awaits k Q (n :: ms) names s) (ha : Advances G.groundwork ms s s') :
    Fresh G.groundwork.vars [n] s' :=
  h.ahead.node ha

end Awaits

/-- Demands are answered as long as at most `k` variables wait. -/
structure Answers (G : Outlook) (k : Nat) (demand : NodeId → Resolve Unit) : Prop where
  advances : DemandAdvances G.groundwork demand
  stage : ∀ {Q s s' d}, G.Stage Q s → (G.plan.waiting s).card ≤ k →
    (∀ v ∈ G.program.variables, v.id = d → G.Below s v) → Runs (demand d) s () s' →
      G.Stage Q s' ∧ ∀ v ∈ G.program.variables, v.type = none → v.id = d → ¬ G.Pends s' v

/-! ### Nodes that get a slot -/

lemma Backed.later {shape : Shape} (h : G.Backed Q s shape) (hl : G.Later Q s Q' s') :
    G.Backed Q' s' shape :=
  ⟨fun y hy => hl.settled y (h.leads y hy), h.original⟩

/-- A slot that is new is none of those reserved before. -/
lemma Stage.not_reserved (hs : G.Stage Q s) (hle : s.types.size ≤ x) : ¬ Q x :=
  fun hq => absurd (hs.reserved x hq).2 (Nat.not_lt.mpr hle)

/-- A node that had no type has got a slot of its own, with a shape in it. -/
structure Stores (n : NodeId) (x : Slot) (shape : Shape) (c c' : Context) : Prop
    extends Places n x c c' where
  le : c.types.size ≤ x
  lt : x < c'.types.size
  get : c'.types.get x = shape

namespace Stores

variable {c c1 c' : Context} {shape : Shape} (hn : c.nodeType? n = none)
include hn

lemma setShape (h : c.setShape n shape = (x, c')) : Stores n x shape c c' := by
  obtain ⟨-, hle, hlt, hget⟩ := fills_setShape hn h
  exact ⟨.setShape hn h, hle, hlt, hget⟩

lemma slotOf (h : c.slotOf n = (x, c')) : Stores n x .unknown c c' :=
  setShape hn (by rw [setShape_of_none hn, ← slotOf_of_none hn, h])

lemma copy (hlt : y < c.types.size) (h : c.slotOf n = (x, c1)) :
    Stores n x (c.types.get y) c (c1.assign x y) := by
  have hs := slotOf hn h
  refine ⟨.copy hn h, hs.le, by simpa [Context.assign] using hs.lt, ?_⟩
  refine (TypeStore.get_assign _ _ _ _ hs.lt).trans ((if_pos rfl).trans (hs.old y hlt))

end Stores

/-- A node gets a slot of its own. -/
lemma Stage.store {shape : Shape} (hs : G.Stage Q s) (hn : Fresh G.groundwork.vars [n] s)
    (h : Stores n x shape s.toContext c) (hb : G.Backed Q s shape) :
    G.Stage Q { s with toContext := c } ∧ G.Later Q s Q { s with toContext := c } ∧
      G.Settled Q { s with toContext := c } x := by
  obtain ⟨hs', hl⟩ := hs.place hn h.toPlaces fun _ => .inl
  refine ⟨hs', hl, settled_of_backed (hs.footing.le.trans h.le) h.lt (hs.not_reserved h.le) ?_⟩
  rw [h.get]
  exact hb.later hl

/-- A node shares a slot that is settled. -/
lemma Stage.bind (hs : G.Stage Q s) (hn : Fresh G.groundwork.vars [n] s) (hy : G.Settled Q s y)
    (hb : s.bind n y = (x, c)) :
    G.Stage Q { s with toContext := c } ∧ G.Later Q s Q { s with toContext := c } ∧
      c.nodeType? n = some x ∧ G.Settled Q { s with toContext := c } x := by
  have hp := Places.bind (hn n List.mem_cons_self).1 hb
  rw [bind_of_none (hn n List.mem_cons_self).1] at hb
  obtain ⟨rfl, -⟩ := Prod.mk.inj hb
  obtain ⟨hs', hl⟩ := hs.place hn hp fun _ => .inl
  exact ⟨hs', hl, hp.node, hl.settled y hy⟩

/-- Inference does not come to such an expression, so nothing is reserved. -/
lemma walked_of_known (he : e.isOpen = false) (hs : G.Stage Q s') (h : G.Known Q s' e x) :
    G.Walked Q s [e] [x] s' := by
  refine ⟨⊥, fun _ => False.elim, by rwa [sup_bot_eq], .cons (.of_known h (.still he ?_)) .nil⟩
  cases e with
  | record => cases he
  | _ => exact ⟨x, h.node, .inl h.settled⟩

/-- A slot of its own that inference may fill. -/
lemma walked_hole (hs : G.Stage Q s) (hn : Fresh G.groundwork.vars [e.node.id] s)
    (hset : s.setShape e.node.id .deferred = (x, c)) (hself : e.selfTyped = false)
    (hlaid : ∀ {c : Context} {Z P ok}, c.nodeType? e.node.id = some x → P x → Laid c Z P False ok e)
    (hsound : ∀ c, e.Sound c) : G.Walked Q s [e] [x] { s with toContext := c } := by
  obtain ⟨hp, hle, hlt, hget⟩ := Stores.setShape (hn _ List.mem_cons_self).1 hset
  obtain ⟨hs', hl⟩ := hs.place (T := Q ⊔ (· = x)) hn hp fun y hy =>
    Or.imp_right (fun heq : y = x => heq ▸ ⟨hle, hlt⟩) hy
  refine ⟨(· = x), fun y hy => hy ▸ hle, hs', .cons ?_ .nil⟩
  refine ⟨hp.node, settled_of_backed (hs.footing.le.trans hle) hlt (hs.not_reserved hle) ?_,
    fun h => ?_, hlaid hp.node rfl, fun _ _ _ _ => hsound _, fun h => ?_⟩
  · rw [hget]
    exact .leaf rfl rfl
  · rcases h with h | h
    · rw [TypeStore.hasDeferred_eq_false_iff, hget] at h
      cases h.1
    · rw [hget] at h
      cases h
  · rw [hself] at h
    cases h

/-! ### Names -/

section Names

variable {k : Nat} {names : List String}

/-- The name of a class or an enum. -/
lemma Stage.typeSlot (hs : G.Stage Q s) {name : String}
    (hd : s.declarationOf? name .type = some n) :
    ∃ y, s.nodeType? n = some y ∧ TypeSlot G.program.layout s.toContext name y := by
  have hmem := (hs.footing.arranged trivial).type_declaration hd
  obtain ⟨y, hy, -⟩ := G.groundwork.typed _ (mem_keys hmem)
  rw [← hs.footing.nodes _ (mem_keys hmem)] at hy
  exact ⟨y, hy, _, hmem, hy⟩

/-- The name of a value: it is one of the program or of a class, or its slot is settled. -/
lemma Stage.value (hs : G.Stage Q s) {name : String} (hd : s.declarationOf? name .value = some n) :
    ∃ y, s.nodeType? n = some y ∧
      (∀ v ∈ G.program.variables, v.id = n → G.strict → v.name.name = name) ∧
      (G.start.nodeType? n = some y ∨ G.Settled Q s y) := by
  obtain ⟨symbol, id, sc, hsc, hmem, -, rfl, rfl⟩ := exists_of_declarationOf? hd
  rcases hs.symbols symbol ⟨id, sc, hsc, hmem⟩ with hstart | ⟨y, hy, hle, hlt, hfree, hvoid⟩
  · obtain ⟨id, sc, hsc, hmem⟩ := hstart
    have hkey := G.starts.orderly.declared id sc hsc symbol hmem
    obtain ⟨y, hy, -⟩ := G.groundwork.typed _ hkey
    refine ⟨y, (hs.footing.nodes _ hkey).trans hy, fun v hv heq hstrict => ?_, .inl hy⟩
    exact (G.symbols hstrict symbol ⟨id, sc, hsc, hmem⟩ v hv heq.symm).symm
  · refine ⟨y, hy, fun v hv heq => ?_, .inr (settled_of_backed hle hlt hfree ?_)⟩
    · obtain ⟨z, hz, -, hlow⟩ := hs.footing.declared hv List.mem_cons_self
      rw [heq, hy] at hz
      cases hz
      exact absurd hlow (Nat.not_lt.mpr hle)
    · rw [hvoid]
      exact .leaf rfl rfl

/-- A slot of signatures is settled once the variable that it may belong to has been demanded. -/
lemma Stage.settled_of_answered (hs : G.Stage Q s) (hy : G.start.nodeType? n = some y)
    (h : ∀ v ∈ G.program.variables, v.type = none → v.id = n → ¬ G.Pends s v) : G.Settled Q s y :=
  hs.low y (G.starts.orderly.typed n y hy).2 (Stage.not_guessed_of_key hy h)

/-- A name, or a word for the class around, obeys all rules. -/
lemma known_name (hchildren : (Piece.expression e).children = []) (hlawful : ∀ c, e.Lawful c)
    (hnode : s.nodeType? e.node.id = some x) (hx : G.Settled Q s x) : G.Known Q s e x :=
  ⟨hnode, hx, assures_sound (fun _ _ _ _ => hlawful _) (by simp [hchildren])⟩

lemma walked_identifier {name : Ident} (hd : G.Answers k demand)
    (h : G.Awaits k Q [name.id] [name.name] s) (hr : Runs (identifier demand name) s x s') :
    G.Walked Q s [.identifier name] [x] s' := by
  obtain ⟨d, s1, _, c1, c2, hdecl, hdemand, hslot, hbind, rfl⟩ := runs_identifier hr
  obtain ⟨y, hy, hname, hset⟩ := h.stage.value hdecl
  have ha := hd.advances h.stage.footing hdemand
  obtain ⟨hs1, hanswered⟩ := hd.stage h.stage h.few (fun v hv heq hstrict =>
    h.below v hv (List.mem_singleton.mpr (hname v hv heq hstrict)) hstrict) hdemand
  have hset : G.Settled Q s1 y := hset.elim (hs1.settled_of_answered · hanswered)
    ((Later.of_advances ha h.stage fun _ => .inl).settled y)
  rw [slotOf_of_some (ha.nodeType d y hy)] at hslot
  cases hslot
  obtain ⟨hs', -, hnode, hx⟩ := hs1.bind (h.fresh.advances ha (List.disjoint_nil_left _)) hset hbind
  exact walked_of_known rfl hs' (known_name rfl (fun _ => trivial) hnode hx)

/-- The name of a type instead of a value. -/
lemma walked_operandOrType {plan : Plan} {b : Bool} (h : G.Awaits k Q e.nodes names s)
    (hexpr : ∀ {x s'}, Runs (expr plan demand e) s x s' → G.Walked Q s [e] [x] s')
    (hr : Runs (operandOrType e (expr plan demand e)) s (x, b) s') :
    G.Walked Q s [e] [x] s' ∧ (b = true → ∃ name, e = .identifier name ∧
      (s'.types.get x).nominalName? = some name.name) := by
  rcases runs_operandOrType hr with ⟨rfl, hr'⟩ |
    ⟨rfl, name, d, _, c1, c2, rfl, -, hdecl, hslot, hbind, rfl⟩
  · exact ⟨hexpr hr', by simp⟩
  · obtain ⟨y, hy, htype⟩ := h.stage.typeSlot hdecl
    rw [slotOf_of_some hy] at hslot
    cases hslot
    have hset := h.stage.settled_type htype
    obtain ⟨hs', hl, hnode, hx⟩ := h.stage.bind h.fresh hset hbind
    rw [bind_of_none (h.fresh _ List.mem_cons_self).1] at hbind
    obtain ⟨rfl, -⟩ := Prod.mk.inj hbind
    refine ⟨walked_of_known rfl hs' (known_name rfl (fun _ => trivial) hnode hx),
      fun _ => ⟨name, rfl, ?_⟩⟩
    rw [(hl.alike hset).nominalName?]
    exact (h.stage.footing.named trivial).typeSlot htype

/-- The class around a scope has a slot that is settled. -/
lemma Stage.enclosing (hs : G.Stage Q s) {id : ScopeId} {sc : Scope}
    (henc : s.enclosing? .object = some id) (hsc : s.scope? id = some sc)
    (hslot : s.slotOf sc.node = (y, c)) : c = s.toContext ∧ G.Settled Q s y := by
  have hkind := List.find?_some henc
  simp only [scopeKind?, hsc, Option.map_some, Option.some.injEq, decide_eq_true_eq] at hkind
  obtain ⟨name, hmem⟩ := hs.objects id sc hsc hkind
  obtain ⟨z, hz, -⟩ := G.groundwork.typed _ (mem_keys hmem)
  rw [← hs.footing.nodes _ (mem_keys hmem)] at hz
  rw [slotOf_of_some hz] at hslot
  cases hslot
  exact ⟨rfl, hs.settled_type ⟨_, hmem, hz⟩⟩

lemma walked_self {node : Node} (h : G.Awaits k Q [node.id] names s)
    (hr : Runs (selfRule node) s.toContext x c) :
    G.Walked Q s [.self node] [x] { s with toContext := c } := by
  obtain ⟨id, sc, y, c1, henc, hsc, hslot, hbind⟩ := runs_selfRule hr
  obtain ⟨rfl, hset⟩ := h.stage.enclosing henc hsc hslot
  obtain ⟨hs', -, hnode, hx⟩ := h.stage.bind h.fresh hset hbind
  exact walked_of_known rfl hs' (known_name rfl (fun _ => trivial) hnode hx)

lemma walked_super {node : Node} (h : G.Awaits k Q [node.id] names s)
    (hr : Runs (superRule node) s.toContext x c) :
    G.Walked Q s [.super node] [x] { s with toContext := c } := by
  obtain ⟨id, sc, y, c1, b, henc, hsc, hslot, hbase, hbind⟩ := runs_superRule hr
  obtain ⟨rfl, hset⟩ := h.stage.enclosing henc hsc hslot
  have hb : G.Settled Q s b :=
    hset.leads b (List.mem_append_right _ (Option.mem_toList.mpr hbase))
  obtain ⟨hs', -, hnode, hx⟩ := h.stage.bind h.fresh hb hbind
  exact walked_of_known rfl hs' (known_name rfl (fun _ => trivial) hnode hx)

end Names

/-! ### Values that meet a type -/

lemma Settled.valueOf (h : G.Settled Q s x) : G.Settled Q s (s.types.valueOf x) := by
  rcases TypeStore.valueOf_cases (t := s.types) (x := x) with heq | hmem
  · rwa [heq]
  · exact h.leads _ (List.mem_append_left _ hmem)

lemma Infer.not_void_of_shorthand {node : Node} {item : String} {c c' : Context}
    (h : Runs (Infer.shorthand node item t) c () c') : (c.types.get t).isVoid = false := by
  simp only [Infer.shorthand, runs_bind, Check.runs_types] at h
  obtain ⟨_, _, ⟨rfl, rfl⟩, h⟩ := h
  split at h
  · next hget => simp [hget, Shape.isVoid]
  · next hget => simp [hget, Shape.isVoid]
  · simp at h

/-- Inference makes no value void. -/
lemma Ready.not_void (h : G.Ready Q P s e) (hP : ∀ x, P x → Q x) (hf : G.Fed Q P s c)
    (hr : Runs (Infer.expr t e) s.toContext () c) (hx : s.nodeType? e.node.id = some x)
    (hvoid : (s.types.get x).isVoid = false) (ht : (s.types.get t).isVoid = false) :
    (c.types.get x).isVoid = false ∨ G.Doomed Q s e.nodes := by
  have hfine : (∃ x, s.nodeType? e.node.id = some x ∧ (G.Settled Q s x ∨ G.Doomed Q s e.nodes)) →
      (c.types.get x).isVoid = false ∨ G.Doomed Q s e.nodes := by
    rintro ⟨y, hy, hset⟩
    cases hx.symm.trans hy
    exact hset.imp_left fun hset => by rwa [hf.get hP hset]
  cases h with
  | still he =>
    obtain rfl := Infer.runs_still he hr
    exact .inl hvoid
  | null hy =>
    cases hx.symm.trans hy
    obtain rfl := Infer.runs_null hx hr
    rcases s.types.get_assign_cases x t x with heq | heq
    · exact .inl ((congrArg _ heq).trans ht)
    · exact .inl ((congrArg _ heq).trans hvoid)
  | @shorthand node item _ hy _ =>
    cases hx.symm.trans hy
    have hr' : Runs (Infer.shorthand node item.name (s.types.unwrapped t)) s.toContext () c := by
      simpa [Infer.expr] using hr
    obtain ⟨_, c1, hslot, rfl⟩ := Infer.runs_shorthand hr'
    rw [slotOf_of_some hy] at hslot
    cases hslot
    rcases s.types.get_assign_cases x (s.types.unwrapped t) x with heq | heq
    · exact .inl ((congrArg _ heq).trans (Infer.not_void_of_shorthand hr'))
    · exact .inl ((congrArg _ heq).trans hvoid)
  | array hy hfirm =>
    cases hx.symm.trans hy
    exact .inl (by rwa [hf.writes.get x fun hp => hfirm.free (hP x hp)])
  | record hok =>
    obtain ⟨y, _, _, hy, -, hfirm, -⟩ := hok
    cases hx.symm.trans hy
    exact .inl (by rwa [hf.writes.get x fun hp => hfirm.free (hP x hp)])
  | binary hloose => exact hloose.elim
  | left _ _ _ _ _ _ hok => exact hfine hok
  | right _ _ _ _ _ _ hok => exact hfine hok
  | even _ _ _ _ _ _ _ hok => exact hfine hok

/-- A type that is settled before an expression is resolved may be expected of it. -/
lemma Stage.backed (hs : G.Stage Q s) (ha : Advances G.groundwork ns s s') (hx : G.Settled Q s x)
    (hnew : ∀ x, P x → s.types.size ≤ x) (hs' : G.Stage (Q ⊔ P) s') : G.Settled (Q ⊔ P) s' x :=
  (Later.of_advances ha hs fun x hq =>
    hq.imp_right fun hp => ⟨hnew x hp, hs'.not_pinned (.inr hp)⟩).settled x hx

/-- **A value has met a type**: after that nothing stays reserved in it. -/
lemma checked {target : Slot} {site : Site} (h : G.Walked Q s [e] [x] s1)
    (ha : Advances G.groundwork ns s s1) (hl : Lettered G.groundwork s)
    (ht : ∀ P : Slot → Prop, (∀ x, P x → s.types.size ≤ x) → G.Stage (Q ⊔ P) s1 →
      G.Backed (Q ⊔ P) s1 (s1.types.get target))
    (hr : Runs (checkAssignable target e x site) s1.toContext () c) :
    Advances G.groundwork ns s { s1 with toContext := c } ∧
      G.Stage Q { s1 with toContext := c } ∧ G.Known Q { s1 with toContext := c } e x ∧
      (c.types.isIncomplete target = true ∨ c.types.isIncomplete x = true ∨
        c.types.fits target x = true) ∧
      ((s1.types.get x).isVoid = false → (s1.types.get target).isVoid = false →
        (c.types.get x).isVoid = false ∨ G.Doomed Q { s1 with toContext := c } e.nodes) := by
  obtain ⟨P, hnew, hs, hheld⟩ := h
  obtain ⟨hheld, -⟩ := List.forall₂_cons.mp hheld
  obtain ⟨hinfer, hfits⟩ := runs_checkAssignable hr
  have hfed : G.Fed (Q ⊔ P) P s1 c := by
    rcases hinfer with ⟨-, -, hr⟩ | ⟨-, rfl⟩
    · exact (hheld.ready.infers (fun x hx => ⟨.inr hx, (hs.reserved x (.inr hx)).2⟩) .refl
        (ht P hnew hs) hr).1
    · exact .refl
  obtain ⟨ha', hs', hl'⟩ := hs.feed hfed (fun _ => .inr) ha hl hnew
  have hlater := hl'.trans close_sup
  refine ⟨ha', hs'.close fun _ => .inl, ⟨hlater.nodeType _ x hheld.node,
    hfed.settled (fun _ => .inl) hheld.settled, hheld.obeys.later hlater⟩, hfits,
    fun hvoid htarget => ?_⟩
  rcases hinfer with ⟨-, -, hr⟩ | ⟨-, rfl⟩
  · exact (hheld.ready.not_void (fun _ => .inr) hfed hr hheld.node hvoid htarget).imp_right
      (·.later hlater)
  · exact .inl hvoid

/-- The value has a slot that fits the type, unless one of the two is incomplete. -/
structure Meets (G : Outlook) (Q : Slot → Prop) (s : Resolving) (target : Slot) (e : Expr)
    (x : Slot) : Prop where
  known : G.Known Q s e x
  expected : G.Settled Q s target
  fits : s.types.isIncomplete target = true ∨ s.types.isIncomplete x = true ∨
    s.types.fits target x = true

lemma Meets.later (h : G.Meets Q s t e x) (hl : G.Later Q s Q' s') : G.Meets Q' s' t e x := by
  refine ⟨h.known.later hl, hl.settled t h.expected, ?_⟩
  rw [hl.isIncomplete h.expected, hl.isIncomplete h.known.settled]
  exact h.fits.imp_right (Or.imp_right (hl.fits h.expected h.known.settled))

/-- Both are complete in the end, so the value fits. -/
lemma Meets.lawful (h : G.Meets Q s t e x) (hl : G.Later Q s Q' s')
    (hc : ∀ n ∈ e.nodes, s'.Complete n) (ht : s.types.isIncomplete t = false) :
    s'.nodeType? e.node.id = some x ∧ s'.types.fits t x = true := by
  have hx := hl.complete h.known.node h.known.settled (hc _ e.node_mem_nodes)
  refine ⟨hl.nodeType _ x h.known.node, hl.fits h.expected h.known.settled ?_⟩
  simpa [ht, hx] using h.fits

lemma exists_mem_of_forall₂ {α β : Type} {R : α → β → Prop} {as : List α} {bs : List β}
    (h : List.Forall₂ R as bs) : ∀ a ∈ as, ∃ b ∈ bs, R a b := by
  induction h with
  | nil => simp
  | cons hab _ ih =>
    refine List.forall_mem_cons.mpr ⟨⟨_, List.mem_cons_self, hab⟩, fun a ha => ?_⟩
    obtain ⟨b, hb, hab⟩ := ih a ha
    exact ⟨b, List.mem_cons_of_mem _ hb, hab⟩

/-! ### Calls -/

/-- Arguments that have met their parameters. -/
abbrev Passes (G : Outlook) (Q : Slot → Prop) (s : Resolving) :
    List Expr → List (String × Slot) → Prop :=
  List.Forall₂ fun e p => ∃ x, G.Meets Q s p.2 e x

lemma Passes.lawful {arguments : List Expr} {ps : List (String × Slot)}
    (h : G.Passes Q s arguments ps) (hl : G.Later Q s Q' s') :
    (∀ n ∈ Expr.nodesAll arguments, s'.Complete n) →
      (∀ p ∈ ps, s.types.isIncomplete p.2 = false) →
        List.Forall₂ (fun e p => ∃ y, s'.nodeType? e.node.id = some y ∧
          s'.types.fits p.2 y = true) arguments ps := by
  induction h with
  | nil => exact fun _ _ => .nil
  | cons hmeets _ ih =>
    obtain ⟨x, hmeets⟩ := hmeets
    intro hc hps
    obtain ⟨hp, hps⟩ := List.forall_mem_cons.mp hps
    obtain ⟨hc1, hc2⟩ := List.forall_mem_append.mp hc
    exact .cons ⟨x, hmeets.lawful hl hc1 hp⟩ (ih hc2 hps)

lemma walked_call_type {node : Node} {name : Ident} (hs : G.Stage Q s1)
    (hk : G.Known Q s1 (.identifier name) y) (hn : Fresh G.groundwork.vars [node.id] s1)
    (hname : (s1.types.get y).nominalName? = some name.name)
    (hobject : (s1.types.get y).isObject = true) (hb : s1.bind node.id y = (x, c)) :
    G.Walked Q s [.call node (.identifier name) []] [x] { s1 with toContext := c } := by
  obtain ⟨hs', hl, hnode, hx⟩ := hs.bind hn hk.settled hb
  refine walked_of_known rfl hs' ⟨hnode, hx, assures_sound ?_ ?_⟩
  · refine Assures.later (s := s1) (fun Q' F hF _ => .inl ⟨rfl, name, ?_⟩) hl
    rcases Shape.nominal_cases hname with ⟨scope, base, fields, hget⟩ | ⟨_, _, hget⟩
    · have hform : F.types.get y = _ := hget ▸ (hF.alike hk.settled).inv (.inl trivial)
      refine ⟨scope, base, fields, rfl, ?_⟩
      rw [Context.shape?, hF.nodeType name.id y hk.node, Option.map_some, hform]
    · rw [hget] at hobject
      cases hobject
  · simpa [Piece.children] using hk.obeys.later hl

lemma walked_call {node : Node} {callee : Expr} {arguments : List Expr} {r : Slot}
    {ps : List (String × Slot)} (hs : G.Stage Q s1) (hk : G.Known Q s1 callee y)
    (hn : Fresh G.groundwork.vars [node.id] s1) (hget : s1.types.get y = .function r ps)
    (hargs : G.Passes Q s1 arguments ps)
    (hb : s1.bind node.id (s1.types.valueOf y) = (x, c)) :
    G.Walked Q s [.call node callee arguments] [x] { s1 with toContext := c } := by
  obtain ⟨hs', hl, hnode, hx⟩ := hs.bind hn hk.settled.valueOf hb
  refine walked_of_known rfl hs' ⟨hnode, hx, assures_sound ?_ ?_⟩
  · refine Assures.later (s := s1) (fun Q' F hF hc => .inr ?_) hl
    obtain ⟨r', hform, -⟩ : ∃ r', F.types.get y = .function r' ps ∧ _ :=
      hget ▸ (hF.alike hk.settled).inv (.inl trivial)
    -- the parameters are complete, as parts of the callee
    have hcallee := hF.complete hk.node hk.settled
      (hc _ (by simp [Expr.nodes, callee.node_mem_nodes]))
    rw [TypeStore.isIncomplete_eq_false_iff, TypeStore.components, hget] at hcallee
    refine ⟨r', ps, ?_, hargs.lawful hF (fun n hn => hc n ?_) fun p hp => hcallee.2 _ ?_⟩
    · rw [Context.shape?, hF.nodeType _ y hk.node, Option.map_some, hform]
    · exact List.mem_cons_of_mem _ (List.mem_append_right _ hn)
    · exact List.mem_cons_of_mem _ (List.mem_map_of_mem hp)
  · intro d hd
    rcases List.mem_cons.mp hd with heq | hd
    · cases heq
      exact hk.obeys.later hl
    · obtain ⟨d', hd', heq⟩ := List.mem_map.mp hd
      cases heq
      obtain ⟨_, -, _, hmeets⟩ := exists_mem_of_forall₂ hargs d hd'
      exact hmeets.known.obeys.later hl

/-! ### Operands, elements and members -/

lemma walked_unary {node : Node} {op : UnaryOp} {operand : Expr} (hs : G.Stage Q s1)
    (hk : G.Known Q s1 operand y) (hn : Fresh G.groundwork.vars [node.id] s1)
    (hr : Runs (unaryRule node op operand y) s1.toContext x c) :
    G.Walked Q s [.unary node op operand] [x] { s1 with toContext := c } := by
  have hnone := (hn _ List.mem_cons_self).1
  have hv := hk.settled.valueOf
  obtain ⟨shape, hstores, hb⟩ : ∃ shape, Stores node.id x shape s1.toContext c ∧
      G.Backed Q s1 shape := by
    rcases (runs_unaryRule hr).2 with hset | ⟨c1, hslot, rfl⟩
    · exact ⟨_, .setShape hnone hset, .leaf rfl rfl⟩
    · exact ⟨_, .copy hnone hv.firm.lt hslot, hv.backed⟩
  obtain ⟨hs', hl, hx⟩ := hs.store hn hstores hb
  refine walked_of_known rfl hs' ⟨hstores.node, hx, assures_sound (fun _ _ _ _ => trivial) ?_⟩
  simpa [Piece.children] using hk.obeys.later hl

lemma walked_index {node : Node} {source position : Expr} {a p : Slot} (hs : G.Stage Q s1)
    (ha : G.Known Q s1 source a) (hp : G.Known Q s1 position p)
    (hn : Fresh G.groundwork.vars [node.id] s1)
    (hr : Runs (indexRule node source position a p) s1.toContext x c) :
    G.Walked Q s [.index node source position] [x] { s1 with toContext := c } := by
  have hparts : ∀ d, .expression d ∈ (Piece.expression (.index node source position)).children →
      G.Assures Q s1 d.nodes fun c => d.Sound c := by
    simpa [Piece.children] using ⟨ha.obeys, hp.obeys⟩
  have hsource : source.node.id ∈ (Expr.index node source position).nodes := by
    simp [Expr.nodes, source.node_mem_nodes]
  have hposition : position.node.id ∈ (Expr.index node source position).nodes := by
    simp [Expr.nodes, position.node_mem_nodes]
  rcases runs_indexRule hr with ⟨hinc, hslot⟩ | ⟨element, helement, hint, hb⟩
  · have hstores := Stores.slotOf (hn _ List.mem_cons_self).1 hslot
    obtain ⟨hs', hl, hx⟩ := hs.store hn hstores (.leaf rfl rfl)
    refine walked_of_known rfl hs' ⟨hstores.node, hx,
      (assures_sound (fun Q' F hF hc => ?_) hparts).later hl⟩
    rw [hF.complete ha.node ha.settled (hc _ hsource)] at hinc
    cases hinc
  · obtain ⟨hs', hl, hnode, hx⟩ := hs.bind hn (ha.settled.backed.argumentOf? helement) hb
    refine walked_of_known rfl hs' ⟨hnode, hx,
      (assures_sound (fun Q' F hF hc => ?_) hparts).later hl⟩
    have hint : (s1.types.get p).isInteger = true := hint.resolve_left (by
      simp [hF.complete hp.node hp.settled (hc _ hposition)])
    refine ⟨a, p, element, hF.nodeType _ a ha.node, hF.nodeType _ p hp.node, ?_, ?_⟩
    · rw [TypeStore.arrayElement?, (hF.alike ha.settled).argumentOf?]
      exact helement
    · rw [← hint]
      exact (hF.alike hp.settled).congr_nominal Shape.isInteger false (fun s => by cases s <;> rfl)
        (fun _ _ _ => rfl) (fun _ _ _ _ => rfl) fun _ _ _ => rfl

/-- A field that is found in a class was there when the walk began. -/
lemma Settled.field (h : G.Settled Q s y) {name : String}
    (hfield : s.types.findField? y name = some z) :
    z < G.groundwork.size ∧ ∃ u, (name, z) ∈ (G.start.types.get u).fields := by
  obtain ⟨o, ho, hlookup⟩ := List.exists_of_findSome?_eq_some hfield
  have hmem := Relation.mem_of_lookup hlookup
  have hset := TypeStore.mem_lineage (G.region_settled Q s).base h o ho
  obtain ⟨u, hu⟩ := hset.firm.original (Shape.nominal_of_mem_fields hmem).1
  rw [← hu] at hmem
  exact ⟨(G.starts.orderly.shapes u).handles z (Shape.nominal_of_mem_fields hmem).2, u, hmem⟩

lemma walked_member {node : Node} {object : Expr} {name : Ident} {k : Nat}
    (hd : G.Answers k demand) (h : G.Awaits k Q [node.id] [name.name] s1)
    (hk : G.Known Q s1 object y) (hr : Runs (memberRule G.plan demand node object name y) s1 x s') :
    G.Walked Q s [.member node object name] [x] s' := by
  have hfinish : ∀ {s2 s'}, G.Later Q s1 Q s2 → G.Stage Q s' → G.Later Q s2 Q s' →
      s'.nodeType? node.id = some x → G.Settled Q s' x →
        G.Walked Q s [.member node object name] [x] s' := by
    intro s2 s' hl hs' hl' hnode hx
    refine walked_of_known rfl hs' ⟨hnode, hx, assures_sound (fun _ _ _ _ => trivial) ?_⟩
    simpa [Piece.children] using hk.obeys.later (hl.trans hl')
  rcases runs_memberRule hr with ⟨field, s2, c, hfield, hdemand, hb, rfl⟩ | ⟨-, c, hslot, rfl⟩
  · obtain ⟨hlow, u, hmem⟩ := hk.settled.valueOf.field hfield
    -- the field may be a variable, which is resolved first
    obtain ⟨hs2, ha, hknown⟩ : G.Stage Q s2 ∧ Advances G.groundwork [] s1 s2 ∧
        ¬ G.Guessed s2 field := by
      rcases hdemand with ⟨d, howner, hdemand⟩ | ⟨howner, rfl⟩
      · obtain ⟨hs2, hanswered⟩ := hd.stage h.stage h.few (fun v hv heq hstrict => by
          refine h.below v hv (List.mem_singleton.mpr ?_) hstrict
          exact (G.fields hstrict u _ hmem v hv (heq ▸ G.owned hstrict _ _ howner)).symm) hdemand
        refine ⟨hs2, hd.advances h.stage.footing hdemand, ?_⟩
        rintro ⟨v, hv, htype, hpends, hx⟩
        have heq := (G.starts.serves.slots v hv field hx).symm.trans howner
        exact hanswered v hv htype (Option.some.inj heq) hpends
      · refine ⟨h.stage, .refl h.stage.footing, ?_⟩
        rintro ⟨v, hv, -, -, hx⟩
        cases (G.starts.serves.slots v hv field hx).symm.trans howner
    obtain ⟨hs', hl', hnode, hx⟩ := hs2.bind (h.fresh.advances ha (List.disjoint_nil_left _))
      (hs2.low field hlow hknown) hb
    exact hfinish (.of_advances ha h.stage fun _ => .inl) hs' hl' hnode hx
  · have hstores := Stores.slotOf (h.fresh _ List.mem_cons_self).1 hslot
    obtain ⟨hs', hl', hx⟩ := h.stage.store h.fresh hstores (.leaf rfl rfl)
    exact hfinish .refl hs' hl' hstores.node hx

lemma walked_assign {node : Node} {target value : Expr} {u v : Slot} (hs : G.Stage Q s1)
    (hu : G.Known Q s1 target u) (hv : G.Walked Q s1 [value] [v] s2)
    (ha : Advances G.groundwork ns s1 s2) (hn : Fresh G.groundwork.vars [node.id] s1)
    (hnot : node.id ∉ ns) (hr : Runs (assignRule node value u v) s2.toContext x c) :
    G.Walked Q s [.assign node target value] [x] { s2 with toContext := c } := by
  obtain ⟨hvoid, hvoid', c1, hcheck, hb⟩ := runs_assignRule hr
  obtain ⟨ha', hs3, hk, hfits, hkept⟩ := checked hv ha hs.lettered (fun P hnew hsP =>
    (hs.backed ha hu.settled hnew hsP).backed) hcheck
  have hl : G.Later Q s1 Q { s2 with toContext := c1 } :=
    .of_advances ha' hs fun _ => .inl
  have hmeets : G.Meets Q { s2 with toContext := c1 } u value v :=
    ⟨hk, hl.settled u hu.settled, hfits⟩
  obtain ⟨hs', hl', hnode, hx⟩ := hs3.bind
    (hn.advances ha' (List.disjoint_singleton.mpr hnot)) hk.settled hb
  refine walked_of_known rfl hs' ⟨hnode, hx, (assures_sound (fun Q' F hF hc => ?_) ?_).later hl'⟩
  · have hu' := hu.later hl
    have hcomplete := hF.complete hu'.node hu'.settled
      (hc _ (by simp [Expr.nodes, target.node_mem_nodes]))
    have hvalue : ∀ n ∈ value.nodes, F.toContext.Complete n :=
      fun n hn => hc n (List.mem_cons_of_mem _ (List.mem_append_right _ hn))
    obtain ⟨hnode, hfits⟩ := hmeets.lawful hF hvalue hcomplete
    refine ⟨u, v, hF.nodeType _ u hu'.node, hnode, fun h => ?_, fun h => ?_, hfits⟩
    · have hsame := ((Later.of_advances ha hs fun _ => .inl).alike hu.settled).isVoid
      have hlast := ((hl.trans hF).alike hu.settled).isVoid
      rw [h, ← hsame, hvoid'] at hlast
      cases hlast
    · rcases hkept hvoid hvoid' with hkept | hdoomed
      · have hlast := (hF.alike hk.settled).isVoid
        rw [h] at hlast
        exact absurd (hlast.trans hkept) (by simp [Shape.isVoid])
      · exact hdoomed Q' F hF hvalue
  · simpa [Piece.children] using ⟨hu.obeys.later hl, hk.obeys⟩

end Outlook

end Sema
