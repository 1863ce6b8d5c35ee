import Sema.Proofs.ExpressionRules

/-!
The rules for arrays, records and operators, and with them all expressions. Below these three slots
may be left to inference, which fills them when the expression around is known; so each rule is
shown to hold whatever inference makes of them.
-/

namespace Sema

namespace Outlook

open Sema.Action Context Resolving Resolve

variable {G : Outlook} {Q Q' P P' P1 P2 : Slot → Prop} {s s1 s2 s' : Resolving} {x y z t : Slot}
  {n : NodeId} {c : Context} {e : Expr} {es : List Expr} {xs : List Slot} {ns : List NodeId}
  {demand : NodeId → Resolve Unit} {node : Node}

/-! ### Records and arrays -/

lemma walked_record {values : List FieldValue} {slots : List (String × Slot)} {scope : ScopeId}
    (h : G.Walked Q s (values.map (·.value)) (slots.map (·.2)) s1)
    (hn : Fresh G.groundwork.vars [node.id] s1)
    (hset : s1.setShape node.id (.record scope slots) = (x, c)) :
    G.Walked Q s [.record node values] [x] { s1 with toContext := c } := by
  obtain ⟨P, hnew, hs, hheld⟩ := h
  obtain ⟨hp, hle, hlt, hget⟩ := Stores.setShape (hn _ List.mem_cons_self).1 hset
  obtain ⟨hs', hl⟩ := hs.place hn hp fun _ => .inl
  obtain ⟨-, hl0⟩ := (hs.close fun _ => .inl : G.Stage Q s1).place (T := Q) hn hp fun _ => .inl
  have hfirm : G.Firm (Q ⊔ P) { s1 with toContext := c } x :=
    firm_of_high (hs.footing.le.trans hle) hlt (hs.not_reserved hle) (hget ▸ original_of_plain rfl)
  -- what holds of the values holds of the fields, which share their slots
  have hvalue : ∀ y ∈ (c.types.get x).leads, ∃ e ∈ values.map (·.value), G.Held Q P s1 e y := by
    rw [hget]
    intro y hy
    obtain ⟨e, he, hheld⟩ := exists_mem_of_forall₂ hheld.flip y (by simpa [Shape.leads, Shape.base?,
      Shape.components] using hy)
    exact ⟨e, he, hheld⟩
  have hknown : ∀ e ∈ values.map (·.value), ∃ y ∈ slots.map (·.2), G.Held Q P s1 e y :=
    exists_mem_of_forall₂ hheld
  refine ⟨P, hnew, hs', .cons ⟨hp.node, ?_, fun hclosed => ?_, .record ⟨x, scope, slots, hp.node,
    hs.footing.le.trans hle, hfirm, hget, ?_⟩ fun f hf => ?_, assures_sound (fun _ _ _ _ => trivial)
    fun d hd => ?_, fun hself => ?_⟩ .nil⟩
  · refine settled_of_leads { hfirm with free := fun hq => hfirm.free (.inl hq) } fun y hy => ?_
    obtain ⟨e, -, he⟩ := hvalue y hy
    exact hl0.settled y he.settled
  · refine settled_of_leads hfirm fun y hy => ?_
    obtain ⟨e, -, he⟩ := hvalue y hy
    have hd := hclosed.resolve_right (by simp [hget, Shape.isFunction])
    refine hl.settled y (he.closed (.inl ((hl0.hasDeferred he.settled).symm.trans ?_)))
    refine (TypeStore.hasDeferred_eq_false_iff.mp hd).2 y ?_
    rw [Shape.leads_of_plain (by rw [hget]; rfl)] at hy
    exact hy
  · rw [← List.forall₂_eq_eq_eq, List.forall₂_map_left_iff, List.forall₂_map_right_iff]
    rw [List.forall₂_map_left_iff, List.forall₂_map_right_iff] at hheld
    exact (hheld.imp fun _ _ he => (hl.nodeType _ _ he.node).symm).flip
  · obtain ⟨y, -, he⟩ := hknown f.value (List.mem_map_of_mem hf)
    exact he.ready.later hs hl fun _ h => h
  · obtain ⟨f, hf, heq⟩ := List.mem_map.mp hd
    cases heq
    obtain ⟨y, -, he⟩ := hknown f.value (List.mem_map_of_mem hf)
    exact he.obeys.later hl
  · rw [or_iff_not_imp_right]
    intro hlive
    rw [TypeStore.hasDeferred_eq_false_iff, TypeStore.components, hget]
    refine ⟨rfl, fun y hy => ?_⟩
    rw [← Shape.leads_of_plain rfl, ← hget] at hy
    obtain ⟨e, he, hheld⟩ := hvalue y hy
    obtain ⟨f, hf, rfl⟩ := List.mem_map.mp he
    refine (hl0.hasDeferred hheld.settled).trans ((hheld.typed
      (FieldValue.forall_selfTyped hself f hf)).resolve_right fun hd => hlive ?_)
    exact (hd.later hl).mono fun n hn =>
      List.mem_cons_of_mem _ (FieldValue.mem_nodesAll.mpr ⟨f, hf, hn⟩)

/-- Elements that something is deferred in are filled from the anchor. -/
lemma fed_checkElements {anchor : Slot} (hP : ∀ x, P x → Q x ∧ x < s.types.size)
    (hanchor : G.Settled Q s anchor) : ∀ {ps : List (Expr × Slot)} {i : Nat} {c c' : Context},
      (∀ p ∈ ps, G.Ready Q P s p.1) → G.Fed Q P s c →
      Runs (checkElements anchor i ps) c () c' → G.Fed Q P s c'
  | [], _, _, _, _, hf, hr => by
    rw [checkElements] at hr
    cases hr
    exact hf
  | (e, y) :: rest, _, _, _, hready, hf, hr => by
    obtain ⟨he, hrest⟩ := List.forall_mem_cons.mp hready
    obtain ⟨c1, hinfer, hr⟩ := runs_checkElements_cons hr
    refine fed_checkElements hP hanchor hrest ?_ hr
    rcases hinfer with ⟨-, hinfer⟩ | ⟨-, rfl⟩
    · exact (he.infers hP hf (hf.backed_settled (fun x hx => (hP x hx).1) hanchor) hinfer).1
    · exact hf

/-- Two new slots: one for the type of the elements, one for the array. -/
lemma places_array {shape : Shape} (hn : c.nodeType? node.id = none) {c' : Context}
    (hset : (c.alloc shape).2.setShape node.id
      (.generic Shape.arrayName [c.types.size]) = (x, c')) :
    
    Places node.id x c c' ∧ x = c.types.size + 1 ∧ x < c'.types.size ∧
      c'.types.get x = .generic Shape.arrayName [c.types.size] ∧
        c'.types.get c.types.size = shape := by
  obtain ⟨hp, -, hlt, hget⟩ := Stores.setShape (c := (c.alloc shape).2) hn hset
  have hold := hp.old c.types.size (by simp [Context.alloc])
  rw [setShape_of_none (c := (c.alloc shape).2) hn] at hset
  obtain ⟨rfl, -⟩ := Prod.mk.inj hset
  refine ⟨hp.alloc, by simp [Context.alloc], hlt, hget, hold.trans ?_⟩
  simp [Context.alloc, TypeStore.get_alloc]

lemma walked_array {elements : List Expr} {slots : List Slot} (h : G.Walked Q s elements slots s1)
    (ha : Advances G.groundwork ns s s1) (hl : Lettered G.groundwork s)
    (hn : Fresh G.groundwork.vars [node.id] s1)
    (hr : Runs (arrayRule node elements slots) s1.toContext x c) :
    G.Walked Q s [.array node elements] [x] { s1 with toContext := c } := by
  obtain ⟨P, hnew, hs, hheld⟩ := h
  have hP : ∀ x, P x → (Q ⊔ P) x ∧ x < s1.types.size :=
    fun x hx => ⟨.inr hx, (hs.reserved x (.inr hx)).2⟩
  have hknown : ∀ e ∈ elements, ∃ y ∈ slots, G.Held Q P s1 e y := exists_mem_of_forall₂ hheld
  have hwhere : ∀ n e, e ∈ elements → n ∈ e.nodes → n ∈ (Expr.array node elements).nodes :=
    fun n e he hn => List.mem_cons_of_mem _ (Expr.mem_nodesAll.mpr ⟨e, he, hn⟩)
  have hnone := (hn _ List.mem_cons_self).1
  obtain ⟨c1, shape, ⟨anchor, hfind, hcheck, rfl⟩ | ⟨hfind, rfl, rfl⟩, hset⟩ := runs_arrayRule hr
  · -- the anchor is complete, and so is the type of the elements
    obtain ⟨e, -, he⟩ := exists_mem_of_forall₂ hheld.flip anchor (List.mem_of_find?_eq_some hfind)
    have hcomplete : s1.types.isIncomplete anchor = false := by
      simpa using List.find?_some hfind
    have hanchor : G.Settled (Q ⊔ P) s1 anchor :=
      he.closed (.inl (TypeStore.not_deferred_of_complete hcomplete))
    have hfed : G.Fed (Q ⊔ P) P s1 c1 := fed_checkElements hP hanchor (fun p hp =>
      (List.forall₂_zip hheld hp).ready) .refl hcheck
    obtain ⟨-, hs2, hl2⟩ := hs.feed hfed (fun _ => .inr) ha hl hnew
    obtain ⟨hp, rfl, hlt, hget, hshape⟩ :=
      places_array ((hfed.writes.nodeType? _).trans hnone) hset
    obtain ⟨hs', hl'⟩ := hs2.place (T := Q ⊔ P)
      (fun n hm => ⟨(hfed.writes.nodeType? n).trans (hn n hm).1, (hn n hm).2⟩) hp fun _ => .inl
    have hlater := hl2.trans hl'
    have hback := (hl2.settled anchor hanchor).backed
    have hy : G.Settled (Q ⊔ P) { s1 with toContext := c } c1.types.size :=
      settled_of_backed hs2.footing.le (Nat.lt_of_succ_lt hlt) (hs2.not_reserved le_rfl)
        (hshape.symm ▸ hback.later hl')
    have hx : G.Settled (Q ⊔ P) { s1 with toContext := c } (c1.types.size + 1) :=
      settled_of_backed (hs2.footing.le.trans (Nat.le_succ _)) hlt
        (hs2.not_reserved (Nat.le_succ _))
        (hget.symm ▸ .plain rfl (by simpa [Shape.components] using hy))
    have hyc : c.types.isIncomplete c1.types.size = false := by
      have hc := (hl2.isIncomplete hanchor).trans hcomplete
      rw [TypeStore.isIncomplete_eq_false_iff] at hc ⊢
      rw [TypeStore.components, hshape]
      exact ⟨hc.1, fun z hz => (hl'.isIncomplete (hback.leads z (List.mem_append_left _ hz))).trans
        (hc.2 z hz)⟩
    refine ⟨P, hnew, hs', .cons ⟨hp.node, hx.weaken fun _ => .inl, fun _ => hx,
      .array hp.node hx.firm hget (.inr ⟨hyc, _, G.region_settled _ _, fun _ => Settled.firm, hy⟩)
        fun e he => ?_, assures_sound (fun _ _ _ _ => trivial) fun d hd => ?_, fun _ => .inl
        (TypeStore.not_deferred_of_complete (complete_array hget hyc))⟩ .nil⟩
    · obtain ⟨y, -, he⟩ := hknown e he
      exact he.ready.later hs hlater fun _ h => h
    · obtain ⟨e, he, heq⟩ := List.mem_map.mp hd
      cases heq
      obtain ⟨y, -, he⟩ := hknown d he
      exact he.obeys.later hlater
  · -- without an anchor the type of the elements may still be filled in
    obtain ⟨hp, rfl, hlt, hget, hshape⟩ := places_array hnone hset
    obtain ⟨hs', hl'⟩ := hs.place (T := Q ⊔ (P ⊔ (· = s1.types.size))) hn hp fun z hz => by
      rcases hz with hz | hz | hz
      · exact .inl (.inl hz)
      · exact .inl (.inr hz)
      · exact .inr ⟨Nat.le_of_eq hz.symm, (Nat.le_of_eq hz).trans_lt (Nat.lt_of_succ_lt hlt)⟩
    have hy : G.Settled Q { s1 with toContext := c } s1.types.size :=
      settled_of_backed hs.footing.le (Nat.lt_of_succ_lt hlt)
        (fun hq => hs.not_reserved le_rfl (.inl hq))
        (hshape.symm ▸ .leaf rfl rfl)
    have hx : G.Settled Q { s1 with toContext := c } (s1.types.size + 1) :=
      settled_of_backed (hs.footing.le.trans (Nat.le_succ _)) hlt
        (fun hq => hs.not_reserved (Nat.le_succ _) (.inl hq))
        (hget.symm ▸ .plain rfl (by simpa [Shape.components] using hy))
    have hfirm : G.Firm (Q ⊔ (P ⊔ (· = s1.types.size))) { s1 with toContext := c }
        (s1.types.size + 1) := by
      refine { hx.firm with free := ?_ }
      rintro (hq | hq | hq)
      · exact hx.firm.free hq
      · exact hs.not_reserved (Nat.le_succ _) (.inr hq)
      · exact absurd hq (Nat.succ_ne_self _)
    refine ⟨P ⊔ (· = s1.types.size), ?_, hs', .cons ⟨hp.node, hx, fun hclosed => ?_,
      .array hp.node hfirm hget (.inl (.inr rfl)) fun e he => ?_,
      assures_sound (fun _ _ _ _ => trivial) fun d hd => ?_, fun hself => .inr ?_⟩ .nil⟩
    · rintro z (hz | hz)
      · exact hnew z hz
      · exact ha.size_le.trans (Nat.le_of_eq hz.symm)
    · rcases hclosed with hd | hd
      · have hd := (TypeStore.hasDeferred_eq_false_iff.mp hd).2 s1.types.size (by
          rw [TypeStore.components, hget]
          exact List.mem_singleton_self _)
        rw [TypeStore.hasDeferred_eq_false_iff, hshape] at hd
        cases hd.1
      · rw [hget] at hd
        cases hd
    · obtain ⟨y, -, he⟩ := hknown e he
      exact he.ready.later hs hl' fun _ => .inl
    · obtain ⟨e, he, heq⟩ := List.mem_map.mp hd
      cases heq
      obtain ⟨y, -, he⟩ := hknown d he
      exact he.obeys.later hl'
    · -- an element that types itself is incomplete, and stays so
      obtain ⟨e, hmem, hself⟩ := Expr.exists_selfTyped hself
      obtain ⟨y, hyslot, he⟩ := hknown e hmem
      have hinc : s1.types.isIncomplete y = true := by
        simpa using List.find?_eq_none.mp hfind y hyslot
      refine (Assures.later ?_ hl').mono fun n hn => hwhere n e hmem hn
      rcases he.typed hself with hd | hdoomed
      · by_contra hlive
        have := complete_of_live hlive e.node_mem_nodes he.node (he.closed (.inl hd))
        simp [this] at hinc
      · exact hdoomed

/-! ### Operators -/

section Operators

variable {node : Node} {op : BinaryOp} {left right : Expr} {l r : Slot}

/-- What a function or another operand counts as is kept. -/
lemma Later.paired_valueOf (h : G.Later Q s Q' s') (hx : G.Settled Q s x) :
    TypeStore.Paired (G.Settled Q s) s.types s'.types (s.types.valueOf x) (s'.types.valueOf x) :=
  .valueOf trivial h.keeps (G.region_settled Q s).closed (.inl ⟨rfl, hx⟩)

/-- The operands of `is` are compared if both type themselves. -/
lemma lawful_is (node : Node) (hleft : G.Held Q P s left l) (hright : G.Held Q P s right r)
    (hrule : s.types.isIncomplete l = true ∨ s.types.isIncomplete r = true ∨
      Relation.hierarchy.holds s.types (s.types.valueOf l) (s.types.valueOf r) = true) :
    G.Assures (Q ⊔ P) s (Expr.binary node .is left right).nodes
      fun c => (Expr.binary node .is left right).Lawful c := by
  intro Q' F hF hc
  refine ⟨l, r, hF.nodeType _ l hleft.node, hF.nodeType _ r hright.node, ?_⟩
  rw [BinaryOp.Relates, if_pos rfl]
  intro hl hr
  have hsettled : ∀ {e x}, G.Held Q P s e x → e.selfTyped = true →
      (∀ n ∈ e.nodes, F.toContext.Complete n) →
        G.Settled (Q ⊔ P) s x ∧ s.types.isIncomplete x = false := by
    intro e x he hself hc
    have hset := he.closed (.inl ((he.typed hself).resolve_right fun hd => hd Q' F hF hc))
    exact ⟨hset, hF.complete he.node hset (hc _ e.node_mem_nodes)⟩
  obtain ⟨hsl, hcl⟩ := hsettled hleft hl fun n hn =>
    hc n (List.mem_cons_of_mem _ (List.mem_append_left _ hn))
  obtain ⟨hsr, hcr⟩ := hsettled hright hr fun n hn =>
    hc n (List.mem_cons_of_mem _ (List.mem_append_right _ hn))
  refine Relation.holds_keeps _ trivial hF.keeps (G.region_settled _ s).closed
    (G.region_settled _ s).base hF.size_le (hF.paired_valueOf hsl) (hF.paired_valueOf hsr) ?_
  simpa [hcl, hcr] using hrule

/-- Operands that agree go on doing so. -/
lemma lawful_operands (hop : op ≠ .is) (hleft : G.Known Q s left l) (hright : G.Known Q s right r)
    (hrule : s.types.isIncomplete l = true ∨ s.types.isIncomplete r = true ∨
      Relation.value.holds s.types l r = true ∧
        operandFits op (s.types.get (s.types.valueOf l)) = true) :
    G.Assures Q s (Expr.binary node op left right).nodes
      fun c => (Expr.binary node op left right).Lawful c := by
  intro Q' F hF hc
  refine ⟨l, r, hF.nodeType _ l hleft.node, hF.nodeType _ r hright.node, ?_⟩
  rw [BinaryOp.Relates, if_neg hop]
  have hl := hF.complete hleft.node hleft.settled
    (hc _ (by simp [Expr.nodes, left.node_mem_nodes]))
  have hr := hF.complete hright.node hright.settled
    (hc _ (by simp [Expr.nodes, right.node_mem_nodes]))
  obtain ⟨hholds, hfits⟩ : Relation.value.holds s.types l r = true ∧
      operandFits op (s.types.get (s.types.valueOf l)) = true := by simpa [hl, hr] using hrule
  refine ⟨hF.holds hleft.settled hright.settled hholds, ?_⟩
  rw [← hfits]
  exact ((hF.paired_valueOf hleft.settled).get hF.keeps).congr_nominal (operandFits op)
    (operandFits op .void) (fun s => by cases s <;> rfl) (fun _ _ _ => rfl) (fun _ _ _ _ => rfl)
    fun _ _ _ => rfl

/-- A complete operand tells what is deferred in the other one. -/
lemma inferred_operand {a b : Expr} (hs : G.Stage (Q ⊔ P) s) (ha : G.Held Q P s a x)
    (hb : G.Held Q P s b y) (hy : s.types.isIncomplete y = false)
    (hr : Runs (Infer.expr (s.types.valueOf y) a) s.toContext () c) :
    G.Fed (Q ⊔ P) P s c ∧ G.Settled (Q ⊔ P) s y ∧ s.types.hasDeferred y = false ∧
      c.types.hasDeferred y = false ∧
      (c.types.hasDeferred x = true → G.Doomed (Q ⊔ P) s a.nodes) := by
  have hd := TypeStore.not_deferred_of_complete hy
  have hset := hb.closed (.inl hd)
  have hcomplete : s.types.isIncomplete (s.types.valueOf y) = false := by
    rcases TypeStore.valueOf_cases (t := s.types) (x := y) with heq | hmem
    · rwa [heq]
    · exact (TypeStore.isIncomplete_eq_false_iff.mp hy).2 _ hmem
  obtain ⟨hfed, hsupplied⟩ := ha.ready.infers (fun x hx => ⟨.inr hx, (hs.reserved x (.inr hx)).2⟩)
    .refl hset.valueOf.backed hr
  refine ⟨hfed, hset, hd, (hfed.hasDeferred (fun _ => .inr) hset).trans hd, fun hx => ?_⟩
  by_contra hlive
  obtain ⟨z, hz, hzc⟩ := (hsupplied hlive hcomplete).complete a List.mem_cons_self
  cases hz.symm.trans ha.node
  simp [TypeStore.not_deferred_of_complete hzc] at hx

/-- Something is deferred in one operand, and nothing in the other one, which is settled. -/
def Onesided (G : Outlook) (Q : Slot → Prop) (s : Resolving) (c : Context) (x y : Slot) : Prop :=
  c.types.hasDeferred x = true ∧ s.types.hasDeferred y = false ∧ G.Settled Q s y

/-- After inference something is deferred in both operands or in none, or it stays so. -/
lemma inferred_operands (hs : G.Stage (Q ⊔ P) s) (hleft : G.Held Q P s left l)
    (hright : G.Held Q P s right r) (h : Runs (inferOperands left right l r) s.toContext () c) :
    G.Fed (Q ⊔ P) P s c ∧ (c.types.hasDeferred l = c.types.hasDeferred r ∨
      G.Doomed (Q ⊔ P) s (left.nodes ++ right.nodes) ∧
        (G.Onesided (Q ⊔ P) s c l r ∨ G.Onesided (Q ⊔ P) s c r l)) := by
  rcases runs_inferOperands h with ⟨-, hc, hr⟩ | ⟨-, hc, hr⟩ | ⟨hl, hr, rfl⟩
  · obtain ⟨hfed, hset, hd, hd', hdoomed⟩ := inferred_operand hs hleft hright hc hr
    refine ⟨hfed, ?_⟩
    rcases hx : c.types.hasDeferred l
    · exact .inl hd'.symm
    · exact .inr ⟨(hdoomed hx).mono fun _ => List.mem_append_left _, .inl ⟨hx, hd, hset⟩⟩
  · obtain ⟨hfed, hset, hd, hd', hdoomed⟩ := inferred_operand hs hright hleft hc hr
    refine ⟨hfed, ?_⟩
    rcases hx : c.types.hasDeferred r
    · exact .inl hd'
    · exact .inr ⟨(hdoomed hx).mono fun _ => List.mem_append_right _, .inr ⟨hx, hd, hset⟩⟩
  · refine ⟨.refl, ?_⟩
    have hdoomed : ∀ {e x}, G.Held Q P s e x → s.types.isIncomplete x = true →
        s.types.hasDeferred x = false → G.Doomed (Q ⊔ P) s e.nodes := by
      intro e x he hinc hd
      by_contra hlive
      simp [complete_of_live hlive e.node_mem_nodes he.node (he.closed (.inl hd))] at hinc
    rcases hdl : s.types.hasDeferred l <;> rcases hdr : s.types.hasDeferred r
    · exact .inl rfl
    · exact .inr ⟨(hdoomed hleft (hr hdr) hdl).mono fun _ => List.mem_append_left _,
        .inr ⟨hdr, hdl, hleft.closed (.inl hdl)⟩⟩
    · exact .inr ⟨(hdoomed hright (hl hdl) hdr).mono fun _ => List.mem_append_right _,
        .inl ⟨hdl, hdr, hright.closed (.inl hdr)⟩⟩
    · exact .inl rfl

/-- Nothing is reserved where inference does not come through the operator. -/
lemma walked_even (hleft : G.Known Q s2 left l) (hright : G.Known Q s2 right r)
    (hdeferred : s2.types.hasDeferred l = s2.types.hasDeferred r)
    (hlawful : G.Assures Q s2 (Expr.binary node op left right).nodes
      fun c => (Expr.binary node op left right).Lawful c)
    (hs : G.Stage Q s') (hl : G.Later Q s2 Q s') (hnode : s'.nodeType? node.id = some x)
    (hx : G.Settled Q s' x) : G.Walked Q s [.binary node op left right] [x] s' := by
  have hknown : G.Known Q s' (.binary node op left right) x := by
    refine ⟨hnode, hx, (assures_sound hlawful ?_).later hl⟩
    simpa [Piece.children] using ⟨hleft.obeys, hright.obeys⟩
  refine ⟨⊥, fun _ => False.elim, by rwa [sup_bot_eq], .cons (.of_known hknown ?_) .nil⟩
  refine .even (hl.nodeType _ l hleft.node) (hl.nodeType _ r hright.node) (G.region_settled Q s')
    (fun _ => Settled.firm) (hl.settled l hleft.settled) (hl.settled r hright.settled) ?_
    ⟨x, hnode, .inl hx⟩
  rw [hl.hasDeferred hleft.settled, hl.hasDeferred hright.settled]
  exact hdeferred

/-- Inference may come through the operator as long as something is deferred on one side. -/
lemma walked_uneven (hnew : ∀ x, P x → s.types.size ≤ x) (hleft : G.Held Q P s2 left l)
    (hright : G.Held Q P s2 right r) (hs2 : G.Stage (Q ⊔ P) s2) (hl : G.Later (Q ⊔ P) s2 (Q ⊔ P) s')
    (hside : G.Onesided (Q ⊔ P) s2 c l r ∨ G.Onesided (Q ⊔ P) s2 c r l) (hs : G.Stage (Q ⊔ P) s')
    (hnode : s'.nodeType? node.id = some x) (hx : G.Settled Q s' x)
    (hclosed : (s'.types.hasDeferred x = false ∨ (s'.types.get x).isFunction = true) →
      G.Settled (Q ⊔ P) s' x) (hobeys : G.Assures (Q ⊔ P) s' (Expr.binary node op left right).nodes
      fun c => (Expr.binary node op left right).Sound c) (hfine : s'.types.hasDeferred x = false ∨
      G.Doomed (Q ⊔ P) s' (Expr.binary node op left right).nodes) :
    G.Walked Q s [.binary node op left right] [x] s' := by
  have hok : G.Fine (Q ⊔ P) s' (.binary node op left right) :=
    ⟨x, hnode, hfine.imp_left fun hd => hclosed (.inl hd)⟩
  refine ⟨P, hnew, hs, .cons ⟨hnode, hx, hclosed, ?_, hobeys, fun _ => hfine⟩ .nil⟩
  rcases hside with ⟨-, hd, hset⟩ | ⟨-, hd, hset⟩
  · exact .left (hl.nodeType _ l hleft.node) (hl.nodeType _ r hright.node)
      (G.region_settled _ s') (fun _ => Settled.firm) (hl.settled r hset)
      ((hl.hasDeferred hset).trans hd) hok (hleft.ready.later hs2 hl fun _ h => h)
  · exact .right (hl.nodeType _ l hleft.node) (hl.nodeType _ r hright.node)
      (G.region_settled _ s') (fun _ => Settled.firm) (hl.settled l hset)
      ((hl.hasDeferred hset).trans hd) hok (hright.ready.later hs2 hl fun _ h => h)

/-- What an operator without `is` returns is a copy of its left operand. -/
lemma operandFits_valueOf (hleft : G.Held Q P s left l) (hfed : G.Fed (Q ⊔ P) P s c)
    (h : operandFits op (c.types.get (s.types.valueOf l)) = true) :
    operandFits op (c.types.get (c.types.valueOf l)) = true := by
  rcases hfunction : (s.types.get l).isFunction
  · rw [TypeStore.valueOf_of_not_function hfunction] at h
    rcases hfunction' : (c.types.get l).isFunction
    · rwa [TypeStore.valueOf_of_not_function hfunction']
    · -- what takes a function takes everything
      cases hget : c.types.get l with
      | function returns ps =>
        rw [hget] at h
        simp only [operandFits, Shape.isNumber, Shape.isString, Shape.isBoolean] at h ⊢
        grind
      | _ => simp [hget, Shape.isFunction] at hfunction'
  · have hget := hfed.get (fun _ => .inr) (hleft.closed (.inr hfunction))
    rwa [TypeStore.valueOf, hget, ← TypeStore.valueOf]

lemma walked_is (h : G.Walked Q s [left, right] [l, r] s2)
    (hn : Fresh G.groundwork.vars [node.id] s2)
    (hr : Runs (isRule node right l r) s2.toContext x c) :
    G.Walked Q s [.binary node .is left right] [x] { s2 with toContext := c } := by
  obtain ⟨P, hnew, hs, hheld⟩ := h
  obtain ⟨hleft, hheld⟩ := List.forall₂_cons.mp hheld
  obtain ⟨hright, -⟩ := List.forall₂_cons.mp hheld
  obtain ⟨hrule, hset⟩ := runs_isRule hr
  have hstores := Stores.setShape (hn _ List.mem_cons_self).1 hset
  have hlawful := lawful_is node hleft hright hrule
  by_cases hdeferred : s2.types.hasDeferred l = s2.types.hasDeferred r
  · obtain ⟨hs', hl, hx⟩ := (hs.close fun _ => .inl : G.Stage Q s2).store hn hstores
      (.leaf rfl rfl)
    exact walked_even hleft.known hright.known hdeferred (hlawful.later close_sup) hs' hl
      hstores.node hx
  · obtain ⟨hs', hl, hx⟩ := hs.store hn hstores (.leaf rfl rfl)
    refine walked_uneven hnew hleft hright hs hl (c := s2.toContext) ?_ hs' hstores.node
      (hx.weaken fun _ => .inl) (fun _ => hx) ((assures_sound hlawful ?_).later hl) (.inl ?_)
    · rcases hdl : s2.types.hasDeferred l <;> rcases hdr : s2.types.hasDeferred r
      · exact absurd (hdl.trans hdr.symm) hdeferred
      · exact .inr ⟨hdr, hdl, hleft.closed (.inl hdl)⟩
      · exact .inl ⟨hdl, hdr, hright.closed (.inl hdr)⟩
      · exact absurd (hdl.trans hdr.symm) hdeferred
    · simpa [Piece.children] using ⟨hleft.obeys, hright.obeys⟩
    · rw [TypeStore.hasDeferred_eq_false_iff, TypeStore.components, hstores.get]
      exact ⟨rfl, by simp [Shape.components]⟩

lemma walked_binary (h : G.Walked Q s [left, right] [l, r] s2) (ha : Advances G.groundwork ns s s2)
    (hletters : Lettered G.groundwork s) (hn : Fresh G.groundwork.vars [node.id] s2)
    (hr : Runs (binaryRule node op left right l r) s2.toContext x c) :
    G.Walked Q s [.binary node op left right] [x] { s2 with toContext := c } := by
  rcases runs_binaryRule hr with ⟨rfl, hr'⟩ | ⟨hop, c1, hinfer, hcheck, hend⟩
  · exact walked_is h hn hr'
  obtain ⟨P, hnew, hs, hheld⟩ := h
  obtain ⟨hleft, hheld⟩ := List.forall₂_cons.mp hheld
  obtain ⟨hright, -⟩ := List.forall₂_cons.mp hheld
  obtain ⟨hfed, hsides⟩ := inferred_operands hs hleft hright hinfer
  obtain ⟨-, hsT, hlT⟩ := hs.feed hfed (fun _ => .inr) ha hletters hnew
  have hsQ : G.Stage Q { s2 with toContext := c1 } := hsT.close fun _ => .inl
  have hknown : ∀ {e x}, G.Held Q P s2 e x → G.Known Q { s2 with toContext := c1 } e x :=
    fun he => ⟨hlT.nodeType _ _ he.node, hfed.settled (fun _ => .inl) he.settled,
      he.obeys.later (hlT.trans close_sup)⟩
  have hnT : Fresh G.groundwork.vars [node.id] { s2 with toContext := c1 } :=
    fun n hm => ⟨(hfed.writes.nodeType? n).trans (hn n hm).1, (hn n hm).2⟩
  have hvalue : G.Settled Q { s2 with toContext := c1 } (s2.types.valueOf l) :=
    hfed.settled (fun _ => .inl) hleft.settled.valueOf
  obtain ⟨shape, hstores, hshape⟩ : ∃ shape, Stores node.id x shape c1 c ∧
      (shape = .boolean ∨ shape = c1.types.get (s2.types.valueOf l)) := by
    have hnone := (hnT _ List.mem_cons_self).1
    rcases hend with hset | ⟨c2, hslot, rfl⟩
    · exact ⟨_, .setShape hnone hset, .inl rfl⟩
    · exact ⟨_, .copy hnone hvalue.firm.lt hslot, .inr rfl⟩
  obtain ⟨hs', hl, hx⟩ := hsQ.store hnT hstores (hshape.elim (· ▸ .leaf rfl rfl)
    (· ▸ hvalue.backed))
  rcases hsides with hdeferred | ⟨hdoomed, hside⟩
  · refine walked_even (hknown hleft) (hknown hright) hdeferred (lawful_operands hop (hknown hleft)
      (hknown hright) ?_) hs' hl hstores.node hx
    exact (runs_checkOperands hcheck).2.imp_right (Or.imp_right fun h =>
      ⟨h.1, operandFits_valueOf hleft hfed h.2⟩)
  · -- the operands will never be complete, so nothing has to be shown of them
    obtain ⟨hsP, hlP⟩ := hsT.place (T := Q ⊔ P) hnT hstores.toPlaces fun _ => .inl
    have hdoomed : G.Doomed (Q ⊔ P) { s2 with toContext := c }
        (Expr.binary node op left right).nodes :=
      (hdoomed.later (hlT.trans hlP)).mono fun _ => List.mem_cons_of_mem _
    refine walked_uneven hnew hleft hright hs (hlT.trans hlP) hside hsP hstores.node hx
      (fun hclosed => settled_of_backed (hs.footing.le.trans (hfed.writes.size ▸ hstores.le))
        hstores.lt (hsT.not_reserved hstores.le) (hstores.get.symm ▸ Backed.later ?_ hlP))
      (fun Q' F hF hc => (hdoomed Q' F hF hc).elim) (.inr hdoomed)
    rcases hshape with rfl | rfl
    · exact .leaf rfl rfl
    rcases hfunction : (s2.types.get l).isFunction
    · rw [TypeStore.valueOf_of_not_function hfunction] at hstores ⊢
      rcases hfed.cases l with heq | hb
      · -- nothing is deferred in the copy, so nothing is in the operand
        have hleft' : c1.types.hasDeferred l = false := by
          have hd := hclosed.resolve_right (by simp [hstores.get, heq, hfunction])
          rw [TypeStore.hasDeferred_eq_false_iff] at hd ⊢
          rw [TypeStore.components, hstores.get] at hd
          exact ⟨hd.1, fun z hz => (hl.hasDeferred ((hknown hleft).settled.leads z
            (List.mem_append_left _ hz))).symm.trans (hd.2 z hz)⟩
        rcases hside with ⟨hd, -⟩ | ⟨-, -, hset⟩
        · simp [hleft'] at hd
        · exact (hlT.settled l hset).backed
      · exact hb.later hlT
    · exact (hlT.settled _ (hleft.closed (.inr hfunction)).valueOf).backed

end Operators

/-! ### All expressions -/

section Walk

variable {k : Nat}

mutual

/-- **Expressions obey the rules**, from whatever stage of the walk they are resolved. -/
lemma walked_expr (hd : G.Answers k demand) :
    ∀ {e : Expr} {Q : Slot → Prop} {s s' : Resolving} {x : Slot}, G.Awaits k Q e.nodes e.names s →
      Runs (expr G.plan demand e) s x s' → G.Walked Q s [e] [x] s'
  | .literal node value, Q, s, s', x, h, hr => by
    simp only [expr, runs_lift, Check.runs_setShape] at hr
    obtain ⟨c, hset, rfl⟩ := hr
    cases value with
    | null => exact walked_hole h.stage h.fresh hset rfl (fun hx hP => .null hx hP) fun _ =>
        Expr.sound_iff.mpr ⟨trivial, by simp [Piece.children]⟩
    | _ =>
      have hstores := Stores.setShape (h.fresh _ List.mem_cons_self).1 hset
      obtain ⟨hs', -, hx⟩ := h.stage.store h.fresh hstores (.leaf rfl rfl)
      exact walked_of_known rfl hs' (known_name rfl (fun _ => trivial) hstores.node hx)
  | .identifier name, Q, s, s', x, h, hr => walked_identifier hd h hr
  | .self node, Q, s, s', x, h, hr => by
    simp only [expr, runs_lift] at hr
    obtain ⟨c, hr, rfl⟩ := hr
    exact walked_self h hr
  | .super node, Q, s, s', x, h, hr => by
    simp only [expr, runs_lift] at hr
    obtain ⟨c, hr, rfl⟩ := hr
    exact walked_super h hr
  | .call node callee arguments, Q, s, s', x, h, hr => by
    obtain ⟨y, b, s1, hcallee, hr⟩ := runs_expr_call hr
    have h1 := h.tail.left
    have ha1 := footprint_operandOrType hd.advances h1.ahead hcallee
    obtain ⟨hw, htype⟩ := walked_operandOrType h1 (walked_expr hd h1) hcallee
    obtain ⟨hs1, hk⟩ := hw.known
    rcases hr with ⟨rfl, rfl, hobject, c, hb, rfl⟩ |
      ⟨-, r, ps, s2, c, hget, hlength, hargs, hb, rfl⟩
    · obtain ⟨name, rfl, hname⟩ := htype rfl
      exact walked_call_type hs1 hk
        (h.node (ha1.mono fun _ => List.mem_append_left _)) hname hobject hb
    · have h2 := h.tail.right ha1 hs1
      have ha2 := footprint_callArguments hd.advances h2.ahead hargs
      obtain ⟨hs2, hpasses⟩ := passes_callArguments hd h2 (fun p hp => hk.settled.leads _ (by
        rw [hget]
        exact List.mem_append_left _ (List.mem_cons_of_mem _ (List.mem_map_of_mem hp))))
        hlength hargs
      have hl : G.Later Q s1 Q s2 := .of_advances ha2 hs1 fun _ => .inl
      obtain ⟨r', hget', -⟩ : ∃ r', s2.types.get y = .function r' ps ∧ _ :=
        hget ▸ (hl.alike hk.settled).inv (.inl trivial)
      exact walked_call hs2 (hk.later hl) (h.node (ha1.trans ha2)) hget' hpasses hb
  | .binary node op left right, Q, s, s', x, h, hr => by
    obtain ⟨l, r, s1, s2, c, hl, hright, hrule, rfl⟩ := runs_expr_binary hr
    have h1 := h.tail.left
    have ha1 := footprint_expr hd.advances h1.ahead hl
    have hleft := walked_expr hd h1 hl
    have hnext : ∀ Q', G.Stage Q' s1 →
        Advances G.groundwork right.nodes s1 s2 ∧ G.Walked Q' s1 [right] [r] s2 := by
      intro Q' hs1
      have h2 := h.tail.right ha1 hs1
      rcases hright with he | ⟨b, -, he⟩
      · exact ⟨footprint_expr hd.advances h2.ahead he, walked_expr hd h2 he⟩
      · exact ⟨footprint_operandOrType hd.advances h2.ahead he,
          (walked_operandOrType h2 (walked_expr hd h2) he).1⟩
    have ha2 := (hnext Q hleft.close.1).1
    exact walked_binary (hleft.cons ha2 ha1.size_le fun Q' hs => (hnext Q' hs).2) (ha1.trans ha2)
      h.stage.lettered (h.node (ha1.trans ha2)) hrule
  | .unary node op operand, Q, s, s', x, h, hr => by
    obtain ⟨y, s1, c, he, hrule, rfl⟩ := runs_expr_unary hr
    have ha := footprint_expr hd.advances h.tail.ahead he
    obtain ⟨hs1, hk⟩ := (walked_expr hd h.tail he).known
    exact walked_unary hs1 hk (h.node ha) hrule
  | .member node object name, Q, s, s', x, h, hr => by
    obtain ⟨y, b, s1, ho, hr⟩ := runs_expr_member hr
    have h1 : G.Awaits k Q object.nodes object.names s :=
      h.tail.mono (.refl _) fun _ => List.mem_cons_of_mem _
    have ha := footprint_operandOrType hd.advances h1.ahead ho
    obtain ⟨hw, -⟩ := walked_operandOrType h1 (walked_expr hd h1) ho
    obtain ⟨hs1, hk⟩ := hw.known
    rcases hr with ⟨-, c, hb, rfl⟩ | ⟨-, hr⟩
    · obtain ⟨hs', hl, hnode, hx⟩ := hs1.bind (h.node ha) hk.settled hb
      refine walked_of_known rfl hs' ⟨hnode, hx, assures_sound (fun _ _ _ _ => trivial) ?_⟩
      simpa [Piece.children] using hk.obeys.later hl
    · refine walked_member hd ⟨hs1, h.node ha, List.nodup_singleton _,
        (card_waiting_le_of_advances ha).trans h.few, fun v hv hname hstrict u hu hm => ?_⟩ hk hr
      exact h.below v hv (List.mem_singleton.mp hname ▸ List.mem_cons_self) hstrict u hu
        (ha.resolving ▸ hm)
  | .index node source position, Q, s, s', x, h, hr => by
    obtain ⟨a, p, s1, s2, c, hsource, hposition, hrule, rfl⟩ := runs_expr_index hr
    have h1 := h.tail.left
    have ha1 := footprint_expr hd.advances h1.ahead hsource
    obtain ⟨hs1, hk1⟩ := (walked_expr hd h1 hsource).known
    have h2 := h.tail.right ha1 hs1
    have ha2 := footprint_expr hd.advances h2.ahead hposition
    obtain ⟨hs2, hk2⟩ := (walked_expr hd h2 hposition).known
    exact walked_index hs2 (hk1.later (.of_advances ha2 hs1 fun _ => .inl)) hk2
      (h.node (ha1.trans ha2)) hrule
  | .assign node target value, Q, s, s', x, h, hr => by
    obtain ⟨u, v, s1, s2, c, htarget, hvalue, hrule, rfl⟩ := runs_expr_assign hr
    have h1 := h.tail.left
    have ha1 := footprint_expr hd.advances h1.ahead htarget
    obtain ⟨hs1, hk1⟩ := (walked_expr hd h1 htarget).known
    have h2 := h.tail.right ha1 hs1
    have ha2 := footprint_expr hd.advances h2.ahead hvalue
    refine walked_assign hs1 hk1 (walked_expr hd h2 hvalue) ha2
      (h.node (ha1.mono fun _ => List.mem_append_left _)) (fun hmem => ?_) hrule
    exact (List.nodup_cons.mp h.nodup).1 (List.mem_append_right _ hmem)
  | .array node elements, Q, s, s', x, h, hr => by
    obtain ⟨slots, s1, c, helements, hrule, rfl⟩ := runs_expr_array hr
    have ha := footprint_exprs hd.advances h.tail.ahead helements
    exact walked_array (walked_exprs hd h.tail helements) ha h.stage.lettered (h.node ha) hrule
  | .record node values, Q, s, s', x, h, hr => by
    obtain ⟨slots, s1, c, hvalues, hset, rfl⟩ := runs_expr_record hr
    have ha := footprint_fieldValues hd.advances h.tail.ahead hvalues
    exact walked_record (walked_fieldValues hd h.tail hvalues) (h.node ha) hset
  | .shorthand node item, Q, s, s', x, h, hr => by
    simp only [expr, runs_lift, Check.runs_setShape] at hr
    obtain ⟨c, hset, rfl⟩ := hr
    exact walked_hole h.stage (h.fresh.mono (by simp [Expr.nodes, Expr.node])) hset rfl
      (fun hx hP => .shorthand hx hP) fun _ =>
      Expr.sound_iff.mpr ⟨trivial, by simp [Piece.children]⟩

lemma walked_exprs (hd : G.Answers k demand) :
    ∀ {es : List Expr} {Q : Slot → Prop} {s s' : Resolving} {slots : List Slot},
      G.Awaits k Q (Expr.nodesAll es) (Expr.namesAll es) s →
      Runs (exprs G.plan demand es) s slots s' → G.Walked Q s es slots s'
  | [], Q, s, s', slots, h, hr => by
    simp only [exprs, runs_pure] at hr
    obtain ⟨rfl, rfl⟩ := hr
    exact .nil h.stage
  | e :: rest, Q, s, s', slots, h, hr => by
    obtain ⟨x, s1, xs, he, hrest, rfl⟩ := runs_exprs_cons.mp hr
    have ha1 := footprint_expr hd.advances h.left.ahead he
    have hw := walked_expr hd h.left he
    have h2 := h.right ha1 hw.close.1
    exact hw.cons (footprint_exprs hd.advances h2.ahead hrest) ha1.size_le
      fun Q' hs => walked_exprs hd (h.right ha1 hs) hrest

lemma walked_fieldValues (hd : G.Answers k demand) :
    ∀ {values : List FieldValue} {Q : Slot → Prop} {s s' : Resolving}
      {slots : List (String × Slot)},
      G.Awaits k Q (FieldValue.nodesAll values) (FieldValue.namesAll values) s →
      Runs (fieldValues G.plan demand values) s slots s' →
        G.Walked Q s (values.map (·.value)) (slots.map (·.2)) s'
  | [], Q, s, s', slots, h, hr => by
    simp only [fieldValues, runs_pure] at hr
    obtain ⟨rfl, rfl⟩ := hr
    exact .nil h.stage
  | ⟨node, name, e⟩ :: rest, Q, s, s', slots, h, hr => by
    obtain ⟨x, s1, xs, he, hrest, rfl⟩ := runs_fieldValues_cons.mp hr
    have ha1 := footprint_expr hd.advances h.left.ahead he
    have hw := walked_expr hd h.left he
    have h2 := h.right ha1 hw.close.1
    exact hw.cons (footprint_fieldValues hd.advances h2.ahead hrest)
      ha1.size_le fun Q' hs => walked_fieldValues hd (h.right ha1 hs) hrest

lemma passes_callArguments (hd : G.Answers k demand) {callee : String} :
    ∀ {arguments : List Expr} {params : List (String × Slot)} {i : Nat} {Q : Slot → Prop}
      {s s' : Resolving}, G.Awaits k Q (Expr.nodesAll arguments) (Expr.namesAll arguments) s →
      (∀ p ∈ params, G.Settled Q s p.2) → params.length = arguments.length →
      Runs (callArguments G.plan demand callee i arguments params) s () s' →
        G.Stage Q s' ∧ G.Passes Q s' arguments params
  | [], [], i, Q, s, s', h, _, _, hr => by
    simp only [callArguments, runs_pure] at hr
    obtain ⟨-, rfl⟩ := hr
    exact ⟨h.stage, .nil⟩
  | e :: rest, (p, expected) :: params, i, Q, s, s', h, hset, hlength, hr => by
    obtain ⟨hset1, hset2⟩ := List.forall_mem_cons.mp hset
    obtain ⟨found, s1, c, site, he, hcheck, hrest⟩ := runs_callArguments_cons hr
    have ha := footprint_expr hd.advances h.left.ahead he
    obtain ⟨ha', hs1, hk, hfits, -⟩ := checked (walked_expr hd h.left he) ha h.stage.lettered
      (fun P hnew hs => (h.stage.backed ha hset1 hnew hs).backed) hcheck
    have hl : G.Later Q s Q { s1 with toContext := c } :=
      .of_advances ha' h.stage fun _ => .inl
    have h2 := h.right ha' hs1
    obtain ⟨hs', hpasses⟩ := passes_callArguments hd h2 (fun p hp => hl.settled _ (hset2 p hp))
      (Nat.succ.inj hlength) hrest
    refine ⟨hs', .cons ⟨found, Meets.later ⟨hk, hl.settled _ hset1, hfits⟩ ?_⟩ hpasses⟩
    exact .of_advances (footprint_callArguments hd.advances h2.ahead hrest)
      hs1 fun _ => .inl

end

end Walk

end Outlook

end Sema
