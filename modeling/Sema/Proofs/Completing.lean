import Sema.Proofs.Filled
import Sema.Proofs.Settled

/-!
Inference completes. An expected type is carried into an expression and written into slots that are
reserved for it. What is written leads to settled slots. If the expected type is complete, and the
expression can become complete at all, then it is complete after that: nothing but what inference
reaches was left open in it.
-/

namespace Sema.Outlook

open Sema.Action Context Resolving

variable {G : Outlook} {Q Q' P P' : Slot → Prop} {s s' : Resolving} {x y t w : Slot} {n : NodeId}
  {c c1 c' : Context} {e : Expr}

/-! ### Expressions that wait for inference -/

/-- The slot of an expression, where inference does not fill it: it is settled, unless the
expression cannot become complete. A record shares the slots of its values. -/
def Fine (G : Outlook) (Q : Slot → Prop) (s : Resolving) : Expr → Prop
  | .record node values => ∃ x scope fields, s.nodeType? node.id = some x ∧
      G.groundwork.size ≤ x ∧ G.Firm Q s x ∧ s.types.get x = .record scope fields ∧
      fields.map (fun f => some f.2) = values.map fun f => s.nodeType? f.value.node.id
  | e => ∃ x, s.nodeType? e.node.id = some x ∧ (G.Settled Q s x ∨ G.Doomed Q s e.nodes)

/-- The expression is ready for inference, which fills slots in `P`. -/
abbrev Ready (G : Outlook) (Q P : Slot → Prop) (s : Resolving) : Expr → Prop :=
  Laid s.toContext (G.Firm Q s) P False (G.Fine Q s)

lemma Fine.later (h : G.Fine Q s e) (hl : G.Later Q s Q' s') : G.Fine Q' s' e := by
  have hother : (∃ x, s.nodeType? e.node.id = some x ∧ (G.Settled Q s x ∨ G.Doomed Q s e.nodes)) →
      ∃ x, s'.nodeType? e.node.id = some x ∧ (G.Settled Q' s' x ∨ G.Doomed Q' s' e.nodes) :=
    fun ⟨x, hx, hs⟩ => ⟨x, hl.nodeType _ x hx, hs.imp (hl.settled x) (·.later hl)⟩
  cases e with
  | record node values =>
    obtain ⟨x, scope, fields, hx, hle, hfirm, hget, hfields⟩ := h
    obtain ⟨hfree, hkept⟩ := hl.high x hle hfirm
    refine ⟨x, scope, fields, hl.nodeType _ x hx, hle, firm_of_high hle
      (hfirm.lt.trans_le hl.size_le) hfree (hkept ▸ hfirm.original), hkept.trans hget, ?_⟩
    -- each value has kept the slot that it had
    refine List.ext_getElem? fun i => ?_
    have hi := congrArg (·[i]?) hfields
    simp only [List.getElem?_map] at hi ⊢
    rcases hf : fields[i]? with _ | f <;> rcases hv : values[i]? with _ | v <;>
      simp only [hf, hv, Option.map_none, Option.map_some] at hi ⊢
    · cases hi
    · cases hi
    · rw [hl.nodeType _ _ (Option.some.inj hi).symm]
  | _ => exact hother h

/-- What waits goes on waiting while other things happen. -/
lemma Ready.later (h : G.Ready Q P s e) (hs : G.Stage Q s) (hl : G.Later Q s Q' s')
    (hP : ∀ x, P x → P' x) : G.Ready Q' P' s' e := by
  have hsettled : ∀ x, G.Firm Q s x → x < G.groundwork.size → G.Settled Q s x :=
    fun _ hx hlt => hs.settled_of_firm hx hlt
  refine h.frame (q := True) (fun x hx => ?_) hl.nodeType (fun x hx => ?_)
    (fun R hR hfirm => ⟨G.Settled Q' s', G.region_settled Q' s',
      fun z hz => hl.settled z (.of_region hR hfirm hz), fun _ hz => hz.firm⟩)
    hP fun e he => he.later hl
  · by_cases hlt : x < G.groundwork.size
    · exact hl.alike (hsettled x hx hlt)
    · exact .of_eq (hl.high x (Nat.le_of_not_lt hlt) hx).2
  · by_cases hlt : x < G.groundwork.size
    · exact (hl.settled x (hsettled x hx hlt)).firm
    · obtain ⟨hfree, hget⟩ := hl.high x (Nat.le_of_not_lt hlt) hx
      exact firm_of_high (Nat.le_of_not_lt hlt) (hx.lt.trans_le hl.size_le) hfree
        (hget ▸ hx.original)

/-! ### Slots that are filled -/

lemma Backed.argumentOf? {shape : Shape} {name : String} (h : G.Backed Q s shape)
    (hy : shape.argumentOf? name = some y) : G.Settled Q s y := by
  refine h.leads y (List.mem_append_left _ ?_)
  unfold Shape.argumentOf? at hy
  split at hy
  · simp_all [Shape.components]
  · cases hy

/-- Some slots in `P` have been filled, with types that lead to settled slots. -/
structure Fed (G : Outlook) (Q P : Slot → Prop) (s : Resolving) (c : Context) : Prop where
  writes : Writes P s.toContext c
  backed : ∀ x, P x → c.types.get x = s.types.get x ∨ G.Backed Q s (c.types.get x)

namespace Fed

lemma refl : G.Fed Q P s s.toContext := ⟨.refl _, fun _ _ => .inl rfl⟩

lemma assign (h : G.Fed Q P s c) (hx : P x) (hy : G.Backed Q s (c.types.get y)) :
    G.Fed Q P s (c.assign x y) := by
  refine ⟨h.writes.trans (.assign hx y), fun z hz => ?_⟩
  rcases c.types.get_assign_cases x y z with heq | heq
  · exact .inr (heq ▸ hy)
  · exact (h.backed z hz).imp heq.trans fun hb => heq ▸ hb

lemma cases (h : G.Fed Q P s c) (x : Slot) :
    c.types.get x = s.types.get x ∨ G.Backed Q s (c.types.get x) := by
  by_cases hx : P x
  · exact h.backed x hx
  · exact .inl (h.writes.get x hx)

variable (h : G.Fed Q P s c) (hP : ∀ x, P x → Q x)
include h hP

lemma get (hx : G.Settled Q s x) : c.types.get x = s.types.get x :=
  h.writes.get x fun hp => hx.firm.free (hP x hp)

lemma backed_settled (hx : G.Settled Q s x) : G.Backed Q s (c.types.get x) := by
  rw [h.get hP hx]
  exact hx.backed

lemma isIncomplete (hx : G.Settled Q s x) : c.types.isIncomplete x = s.types.isIncomplete x :=
  TypeStore.Keeps.isIncomplete (q := True) (h.writes.keeps fun _ hz hp => hz.firm.free (hP _ hp))
    (G.region_settled Q s).closed hx

lemma hasDeferred (hx : G.Settled Q s x) : c.types.hasDeferred x = s.types.hasDeferred x :=
  TypeStore.Keeps.hasDeferred (q := True) (h.writes.keeps fun _ hz hp => hz.firm.free (hP _ hp))
    (G.region_settled Q s).closed hx

/-- An expected type with one `Optional` taken off. -/
lemma unwrapped (ht : G.Backed Q s (c.types.get t)) :
    G.Backed Q s (c.types.get (c.types.unwrapped t)) := by
  rw [TypeStore.unwrapped]
  rcases hi : c.types.optionalInner? t with _ | inner
  · exact ht
  · exact h.backed_settled hP (ht.argumentOf? hi)

end Fed

/-- The expressions have met complete types, which have been filled in. -/
structure Supplied (s : Resolving) (es : List Expr) (c c' : Context) : Prop where
  fills : Fills [] (fun _ => False) c c'
  complete : ∀ e ∈ es, ∃ x, s.nodeType? e.node.id = some x ∧ c'.types.isIncomplete x = false

lemma Supplied.cons {es : List Expr} (h : Supplied s [e] c c1) (hs : Supplied s es c1 c') :
    Supplied s (e :: es) c c' := by
  refine ⟨h.fills.trans hs.fills, List.forall_mem_cons.mpr ⟨?_, hs.complete⟩⟩
  obtain ⟨x, hx, hcomplete⟩ := h.complete e List.mem_cons_self
  exact ⟨x, hx, hs.fills.complete_type hcomplete⟩

/-- Inference fills slots in `P`. From a complete type it completes an expression that can become
complete at all. -/
def Infers (G : Outlook) (Q P : Slot → Prop) (s : Resolving) (e : Expr) : Prop :=
  ∀ {c c' : Context} {t : Slot}, G.Fed Q P s c → G.Backed Q s (c.types.get t) →
    Runs (Infer.expr t e) c () c' → G.Fed Q P s c' ∧
      (¬ G.Doomed Q s e.nodes → c.types.isIncomplete t = false → Supplied s [e] c c')

/-- An operator passes the type of one operand on to the other. -/
lemma runs_infer_binary {node : Node} {op : BinaryOp} {left right : Expr}
    (hx : c.nodeType? left.node.id = some x) (hy : c.nodeType? right.node.id = some y)
    (h : Runs (Infer.expr t (.binary node op left right)) c () c') :
    (c.types.hasDeferred x = true ∧ c.types.hasDeferred y = false ∧
      Runs (Infer.expr y left) c () c') ∨
    (c.types.hasDeferred x = false ∧ c.types.hasDeferred y = true ∧
      Runs (Infer.expr x right) c () c') ∨
    (c.types.hasDeferred x = c.types.hasDeferred y ∧ c' = c) := by
  simp only [Infer.expr, runs_bind, Check.runs_slotOf, Check.runs_types] at h
  obtain ⟨_, _, hl, _, _, hr, _, _, ⟨rfl, rfl⟩, h⟩ := h
  rw [slotOf_of_some hx] at hl
  cases hl
  rw [slotOf_of_some hy] at hr
  cases hr
  split at h
  · exact .inl ⟨‹_›, ‹_›, h⟩
  · exact .inr (.inl ⟨‹_›, ‹_›, h⟩)
  · rename_i hnot1 hnot2
    cases h
    refine .inr (.inr ⟨?_, rfl⟩)
    cases hdx : c.types.hasDeferred x <;> cases hdy : c.types.hasDeferred y
    · rfl
    · exact absurd hdy (hnot2 hdx)
    · exact absurd hdy (hnot1 hdx)
    · rfl

/-- The parts of what may become complete may become complete. -/
lemma not_doomed_of_subset {ms ns : List NodeId} (h : ¬ G.Doomed Q s ns) (hsub : ∀ n ∈ ms, n ∈ ns) :
    ¬ G.Doomed Q s ms :=
  fun hd => h (hd.mono hsub)

section

variable (hP : ∀ x, P x → Q x)
include hP

lemma infers_exprs (hw : G.Settled Q s w) : ∀ {es : List Expr} {c c' : Context},
    (∀ e ∈ es, G.Infers Q P s e) → G.Fed Q P s c → Runs (Infer.exprs w es) c () c' →
      G.Fed Q P s c' ∧ ((∀ e ∈ es, ¬ G.Doomed Q s e.nodes) → s.types.isIncomplete w = false →
        Supplied s es c c')
  | [], c, c', _, hf, hr => by
    rw [Infer.exprs] at hr
    cases hr
    exact ⟨hf, fun _ _ => ⟨.refl c, by simp⟩⟩
  | e :: rest, c, c', ih, hf, hr => by
    obtain ⟨he, hrest⟩ := List.forall_mem_cons.mp ih
    obtain ⟨c1, hr1, hr2⟩ := Infer.runs_exprs_cons.mp hr
    obtain ⟨hf1, hs1⟩ := he hf (hf.backed_settled hP hw) hr1
    obtain ⟨hf2, hs2⟩ := infers_exprs hw hrest hf1 hr2
    refine ⟨hf2, fun hlive hcomplete => ?_⟩
    obtain ⟨hlive1, hlive2⟩ := List.forall_mem_cons.mp hlive
    exact (hs1 hlive1 ((hf.isIncomplete hP hw).trans hcomplete)).cons (hs2 hlive2 hcomplete)

lemma infers_fields {types : List (String × Slot)} (htypes : ∀ p ∈ types, G.Settled Q s p.2) :
    ∀ {values : List FieldValue} {c c' : Context}, (∀ f ∈ values, G.Infers Q P s f.value) →
      G.Fed Q P s c → Runs (Infer.fields t types values) c () c' →
      G.Fed Q P s c' ∧ ((∀ f ∈ values, ¬ G.Doomed Q s f.value.nodes) →
        (∀ p ∈ types, s.types.isIncomplete p.2 = false) →
          Supplied s (values.map (·.value)) c c')
  | [], c, c', _, hf, hr => by
    rw [Infer.fields] at hr
    cases hr
    exact ⟨hf, fun _ _ => ⟨.refl c, by simp⟩⟩
  | ⟨node, name, value⟩ :: rest, c, c', ih, hf, hr => by
    obtain ⟨he, hrest⟩ := List.forall_mem_cons.mp ih
    obtain ⟨w, c1, hw, hr1, hr2⟩ := Infer.runs_fields_cons hr
    have hmem := Relation.mem_of_lookup hw
    obtain ⟨hf1, hs1⟩ := he hf (hf.backed_settled hP (htypes _ hmem)) hr1
    obtain ⟨hf2, hs2⟩ := infers_fields htypes hrest hf1 hr2
    refine ⟨hf2, fun hlive hcomplete => ?_⟩
    obtain ⟨hlive1, hlive2⟩ := List.forall_mem_cons.mp hlive
    exact (hs1 hlive1 ((hf.isIncomplete hP (htypes _ hmem)).trans (hcomplete _ hmem))).cons
      (hs2 hlive2 hcomplete)

/-- Nothing is to be filled where the slot is settled. -/
lemma supplied_of_settled (hf : G.Fed Q P s c) (hfills : Fills [] (fun _ => False) c1 c)
    (hlive : ¬ G.Doomed Q s e.nodes)
    (h : ∃ x, s.nodeType? e.node.id = some x ∧ (G.Settled Q s x ∨ G.Doomed Q s e.nodes)) :
    Supplied s [e] c1 c := by
  obtain ⟨x, hx, hset | hdoomed⟩ := h
  · refine ⟨hfills, List.forall_mem_singleton.mpr ⟨x, hx, ?_⟩⟩
    exact (hf.isIncomplete hP hset).trans (complete_of_live hlive e.node_mem_nodes hx hset)
  · exact absurd hdoomed hlive

end

/-- **Inference completes**: what can become complete at all and has met a complete type is complete
from then on. -/
theorem Ready.infers (hP : ∀ x, P x → Q x ∧ x < s.types.size) (h : G.Ready Q P s e) :
    G.Infers Q P s e := by
  have hPQ : ∀ x, P x → Q x := fun x hx => (hP x hx).1
  induction h with
  | @still e he hok =>
    intro c c' t hf _ hr
    obtain rfl := Infer.runs_still he hr
    refine ⟨hf, fun hlive _ => supplied_of_settled hPQ hf (.refl _) hlive ?_⟩
    cases e with
    | record => cases he
    | _ => exact hok
  | null hx hp =>
    intro c c' t hf ht hr
    obtain rfl := Infer.runs_null ((hf.writes.nodeType? _).trans hx) hr
    refine ⟨hf.assign hp ht, fun _ hcomplete => ?_⟩
    have hlt := (hP _ hp).2
    rw [← hf.writes.size] at hlt
    exact ⟨.assign hlt id hcomplete,
      List.forall_mem_singleton.mpr ⟨_, hx, TypeStore.complete_assign hlt hcomplete⟩⟩
  | shorthand hx hp =>
    intro c c' t hf ht hr
    obtain ⟨_, c1, hslot, rfl⟩ := Infer.runs_shorthand (by simpa [Infer.expr] using hr)
    rw [slotOf_of_some ((hf.writes.nodeType? _).trans hx)] at hslot
    cases hslot
    refine ⟨hf.assign hp (hf.unwrapped hPQ ht), fun _ hcomplete => ?_⟩
    have hlt := (hP _ hp).2
    rw [← hf.writes.size] at hlt
    have hcomplete := TypeStore.complete_unwrapped hcomplete
    exact ⟨.assign hlt id hcomplete,
      List.forall_mem_singleton.mpr ⟨_, hx, TypeStore.complete_assign hlt hcomplete⟩⟩
  | @array node elements x y hx hfirm hget hy helements ih =>
    intro c c' t hf ht hr
    have hkept : c.types.get x = .generic Shape.arrayName [y] :=
      (hf.writes.get x fun hp => hfirm.free (hPQ x hp)).trans hget
    obtain ⟨w, c1, hw, hr1, hc'⟩ := Infer.runs_array ((hf.writes.nodeType? _).trans hx) hkept hr
    have hset : G.Settled Q s w := (hf.unwrapped hPQ ht).argumentOf? hw
    obtain ⟨hf1, hs1⟩ := infers_exprs hPQ hset (fun e he => ih e he) hf hr1
    -- a known type of the elements is known for good
    have hknown : P y ∨ c1.types.isIncomplete y = false := by
      refine hy.imp_right fun ⟨hcomplete, R, hR, hRfirm, hRy⟩ => ?_
      rw [hf1.isIncomplete hPQ (.of_region hR hRfirm hRy)]
      exact hcomplete
    have hfed : G.Fed Q P s c' := by
      split at hc'
      · rename_i hinc
        exact hc' ▸ hf1.assign (hknown.resolve_right (by simp [hinc])) (hf1.backed_settled hPQ hset)
      · exact hc' ▸ hf1
    refine ⟨hfed, fun hlive hcomplete => ?_⟩
    have hwc := TypeStore.complete_of_argumentOf? (TypeStore.complete_unwrapped hcomplete) hw
    have hs := hs1 (fun e he => not_doomed_of_subset hlive fun n hn =>
        List.mem_cons_of_mem _ (Expr.mem_nodesAll.mpr ⟨e, he, hn⟩))
      ((hf.isIncomplete hPQ hset).symm.trans hwc)
    have hfills : Fills [] (fun _ => False) c1 c' ∧ c'.types.isIncomplete y = false := by
      split at hc'
      · rename_i hinc
        have hlt := (hP y (hknown.resolve_right (by simp [hinc]))).2
        rw [← hf1.writes.size] at hlt
        have hwc' := hs.fills.complete_type hwc
        exact hc' ▸ ⟨.assign hlt id hwc', TypeStore.complete_assign hlt hwc'⟩
      · rename_i hinc
        exact hc' ▸ ⟨.refl _, by simpa using hinc⟩
    refine ⟨hs.fills.trans hfills.1, List.forall_mem_singleton.mpr ⟨x, hx, ?_⟩⟩
    exact complete_array ((hfed.writes.get x fun hp => hfirm.free (hPQ x hp)).trans hget) hfills.2
  | @record node values hok _ ih =>
    intro c c' t hf ht hr
    obtain ⟨x, scope, fields, hx, -, hfirm, hget, hfields⟩ := hok
    obtain ⟨sc, types, htypes, hr⟩ := Infer.runs_record hr
    have hmem : ∀ p ∈ types, p.2 ∈ (c.types.get (c.types.unwrapped t)).components := by
      rw [htypes]
      exact fun p hp => List.mem_map_of_mem hp
    have hset : ∀ p ∈ types, G.Settled Q s p.2 := fun p hp =>
      (hf.unwrapped hPQ ht).leads _ (List.mem_append_left _ (hmem p hp))
    obtain ⟨hf', hs⟩ := infers_fields hPQ hset (fun f hfm => ih f hfm) hf hr
    refine ⟨hf', fun hlive hcomplete => ?_⟩
    have hs := hs (fun f hfm => not_doomed_of_subset hlive fun n hn =>
      List.mem_cons_of_mem _ (FieldValue.mem_nodesAll.mpr ⟨f, hfm, hn⟩)) fun p hp => by
        rw [← hf.isIncomplete hPQ (hset p hp)]
        exact (TypeStore.isIncomplete_eq_false_iff.mp (TypeStore.complete_unwrapped hcomplete)).2 _
          (hmem p hp)
    refine ⟨hs.fills, List.forall_mem_singleton.mpr ⟨x, hx, ?_⟩⟩
    have hkept : c'.types.get x = .record scope fields :=
      (hf'.writes.get x fun hp => hfirm.free (hPQ x hp)).trans hget
    rw [TypeStore.isIncomplete_eq_false_iff, TypeStore.components, hkept]
    refine ⟨rfl, fun y hy => ?_⟩
    obtain ⟨f, hfm, rfl⟩ := List.mem_map.mp hy
    -- the field shares the slot of its value
    have hval : some f.2 ∈ values.map fun f => s.nodeType? f.value.node.id :=
      hfields ▸ List.mem_map_of_mem hfm
    obtain ⟨v, hv, hslot⟩ := List.mem_map.mp hval
    obtain ⟨z, hz, hzc⟩ := hs.complete v.value (List.mem_map_of_mem hv)
    cases hz.symm.trans hslot
    exact hzc
  | binary hloose => exact hloose.elim
  | @left node op left right x y R hx hy hR hZ hyR hdeferred hok _ ih =>
    intro c c' t hf ht hr
    have hset : G.Settled Q s y := .of_region hR hZ hyR
    have hd : c.types.hasDeferred y = false := (hf.hasDeferred hPQ hset).trans hdeferred
    rcases runs_infer_binary ((hf.writes.nodeType? _).trans hx)
      ((hf.writes.nodeType? _).trans hy) hr
      with ⟨-, -, hr⟩ | ⟨-, hd', -⟩ | ⟨-, rfl⟩
    · obtain ⟨hf', hs⟩ := ih hf (hf.backed_settled hPQ hset) hr
      refine ⟨hf', fun hlive _ => ?_⟩
      have hcomplete : c.types.isIncomplete y = false := by
        rw [hf.isIncomplete hPQ hset]
        exact complete_of_live hlive (by simp [Expr.nodes, right.node_mem_nodes]) hy hset
      have hs := hs (not_doomed_of_subset hlive (by simp [Expr.nodes]; grind)) hcomplete
      exact supplied_of_settled hPQ hf' hs.fills hlive hok
    · rw [hd] at hd'
      cases hd'
    · exact ⟨hf, fun hlive _ => supplied_of_settled hPQ hf (.refl _) hlive hok⟩
  | @right node op left right x y R hx hy hR hZ hxR hdeferred hok _ ih =>
    intro c c' t hf ht hr
    have hset : G.Settled Q s x := .of_region hR hZ hxR
    have hd : c.types.hasDeferred x = false := (hf.hasDeferred hPQ hset).trans hdeferred
    rcases runs_infer_binary ((hf.writes.nodeType? _).trans hx)
      ((hf.writes.nodeType? _).trans hy) hr
      with ⟨hd', -, -⟩ | ⟨-, -, hr⟩ | ⟨-, rfl⟩
    · rw [hd] at hd'
      cases hd'
    · obtain ⟨hf', hs⟩ := ih hf (hf.backed_settled hPQ hset) hr
      refine ⟨hf', fun hlive _ => ?_⟩
      have hcomplete : c.types.isIncomplete x = false := by
        rw [hf.isIncomplete hPQ hset]
        exact complete_of_live hlive (by simp [Expr.nodes, left.node_mem_nodes]) hx hset
      have hs := hs (not_doomed_of_subset hlive (by simp [Expr.nodes]; grind)) hcomplete
      exact supplied_of_settled hPQ hf' hs.fills hlive hok
    · exact ⟨hf, fun hlive _ => supplied_of_settled hPQ hf (.refl _) hlive hok⟩
  | @even node op left right x y R hx hy hR hZ hxR hyR hdeferred hok =>
    intro c c' t hf ht hr
    have hd : c.types.hasDeferred x = c.types.hasDeferred y := by
      rw [hf.hasDeferred hPQ (.of_region hR hZ hxR), hf.hasDeferred hPQ (.of_region hR hZ hyR)]
      exact hdeferred
    rcases runs_infer_binary ((hf.writes.nodeType? _).trans hx)
      ((hf.writes.nodeType? _).trans hy) hr
      with ⟨hl, hr, -⟩ | ⟨hl, hr, -⟩ | ⟨-, rfl⟩
    · simp [hl, hr] at hd
    · simp [hl, hr] at hd
    · exact ⟨hf, fun hlive _ => supplied_of_settled hPQ hf (.refl _) hlive hok⟩

/-! ### The state after inference -/

/-- What is settled if nothing of `P` is reserved stays so: it leads to what has been filled in. -/
lemma Fed.settled (hf : G.Fed Q P s c) (hQ : ∀ x, Q' x → Q x) (hx : G.Settled Q' s x) :
    G.Settled Q' { s with toContext := c } x := by
  refine hx.transfer (fun y hy => ?_) fun y hy => .inr fun z hz => .inl ?_
  · refine ⟨hf.writes.size ▸ hy.firm.lt, hy.firm.known, hy.firm.free, ?_⟩
    exact (hf.cases y).elim (fun heq => heq ▸ hy.firm.original) (·.original)
  · rcases hf.cases y with heq | hb
    · exact hy.leads z (heq ▸ hz)
    · exact (hb.leads z hz).weaken hQ

/-- Inference in slots that are new since `s0`. -/
lemma Stage.feed (hs : G.Stage Q s) (hf : G.Fed Q P s c) (hP : ∀ x, P x → Q x) {s0 : Resolving}
    {ns : List NodeId} (ha : Advances G.groundwork ns s0 s) (hl : Lettered G.groundwork s0)
    (hnew : ∀ x, P x → s0.types.size ≤ x) :
    Advances G.groundwork ns s0 { s with toContext := c } ∧
      G.Stage Q { s with toContext := c } ∧ G.Later Q s Q { s with toContext := c } := by
  have ha' : Advances G.groundwork ns s0 { s with toContext := c } := ha.writes hf.writes
    fun x hx => .inl ⟨hnew x hx, (hs.reserved x (hP x hx)).2, hs.not_pinned (hP x hx)⟩
  refine ⟨ha', hs.retype ha'.footing (ha'.lettered trivial hl) hf.writes.size.ge
    (fun n x hn => (hf.writes.nodeType? n).trans hn) ?_ ?_ (fun _ => .inl)
    fun x hx => hf.writes.get x fun hp => hx.free (hP x hp)⟩
  · rw [hf.writes.rest]
  · rw [hf.writes.rest]

end Sema.Outlook
