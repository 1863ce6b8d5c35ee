import Sema.Analysis.Pass
import Sema.Proofs.Collected
import Sema.Proofs.OpenScopes
import Sema.Proofs.Traces
import Sema.Syntax.Draft

/-!
The second walk, and all passes, keep a context intact: from every well-formed context, for every
program and for every way to treat scopes, whatever they do is a sequence of operations that are
given existing handles.

Along the way it is said which nodes are typed. An expression that has been resolved is typed with
all its parts, and so is the initial value of every variable that counts as resolved, no matter
whether it was resolved in its turn or on demand.
-/

namespace Sema

open Sema.Action
open Cause.Regular (ordinary)

/-! ### The state of the second walk -/

namespace Resolving

/-- The initial values of the variables are typed as soon as they count as resolved. -/
def Valued (vars : List VariableDecl) (s : Resolving) : Prop :=
  ∀ v ∈ vars, v.id ∈ s.resolved → s.Typed (Expr.nodes? v.value)

/-- Where steps of the second walk lead from a well-formed context. -/
structure Leads (vars : List VariableDecl) (s s' : Resolving) : Prop where
  context : s.toContext.Leads s'.toContext
  resolved : ∀ n ∈ s.resolved, n ∈ s'.resolved
  valued : s.Valued vars → s'.Valued vars

namespace Leads

variable {vars : List VariableDecl} {s s1 s' : Resolving} {x : Slot} {ns : List NodeId}

lemma refl (hc : s.WellFormed) : Leads vars s s :=
  ⟨.refl hc, fun _ h => h, fun h => h⟩

lemma trans (h : Leads vars s s1) (h' : Leads vars s1 s') : Leads vars s s' :=
  ⟨h.context.trans h'.context, fun n hn => h'.resolved n (h.resolved n hn),
    fun hv => h'.valued (h.valued hv)⟩

instance : IsTrans Resolving (Leads vars) := ⟨fun _ _ _ => trans⟩

lemma wellFormed (h : Leads vars s s') : s'.WellFormed :=
  h.context.wellFormed

lemma lt (h : Leads vars s s') (hx : x < s.types.size) : x < s'.types.size :=
  h.context.lt hx

lemma typed (h : Leads vars s s') (hn : s.Typed ns) : s'.Typed ns :=
  h.context.typed hn

/-- Only the context has changed. -/
lemma of_context {c : Context} (h : s.toContext.Leads c) :
    Leads vars s { s with toContext := c } :=
  ⟨h, fun _ hn => hn, fun hv v hmem hn => h.typed (hv v hmem hn)⟩

/-- The variables that are under way do not matter. -/
lemma of_resolving (hc : s.WellFormed) (ns : List NodeId) :
    Leads vars s { s with resolving := ns } :=
  ⟨.refl hc, fun _ hn => hn, fun hv => hv⟩

/-- One more variable counts as resolved. -/
lemma settle (hc : s.WellFormed) {v : VariableDecl}
    (hv : ∀ w ∈ vars, w.id = v.id → w = v) (ht : s.Typed (Expr.nodes? v.value)) :
    Leads vars s { s with resolved := v.id :: s.resolved } := by
  refine ⟨.refl hc, fun _ hn => List.mem_cons_of_mem _ hn, fun hvalued w hw hn => ?_⟩
  rcases List.mem_cons.mp hn with hid | hn
  · rw [hv w hw hid]
    exact ht
  · exact hvalued w hw hn

end Leads

end Resolving

open Resolving

namespace Resolve

variable {E : Cause → Prop} {vars : List VariableDecl} {s : Resolving} {α β : Type} {c : Context}
  {n : NodeId}

lemma ensures_ofCheck {x : [Access] → Check α} {Q : α → Context → Prop}
    (h : Ensures Context.Leads E x s.toContext Q) :
    Ensures (Leads vars) E (ofCheck x) s fun a s' => Q a s'.toContext := by
  refine ⟨.of_context h.state, fun a s' hr => ?_, fun f s' hf => ?_, fun A => by
    rw [outcome_ofCheck, outcome_ofCheck, h.steady A]⟩
  · obtain ⟨c, hc, rfl⟩ := runs_ofCheck.mp hr
    exact h.value a c hc
  · rw [outcome_ofCheck] at hf
    rcases hx : x.outcome s.toContext with ⟨e | a, c⟩
    · rw [hx] at hf
      cases hf
      exact h.fault _ _ hx
    · rw [hx] at hf
      cases hf

lemma ensures_inScope {mode : ScopeMode} {kind : ScopeKind} {node : Node}
    {body : [Access] → Resolve α}
    {Q Q' : α → Resolving → Prop} (hc : s.WellFormed)
    (h : E (.scopeNotFound node.id) ∨ mode.mustReopen s.toContext kind = false ∨
      s.scopeOf? node.id ≠ none)
    (hbody : ∀ s1, Leads vars s s1 →
      Runs (ofCheck (mode.enter kind node.id node.location)) s () s1 →
      Ensures (Leads vars) E body s1 Q)
    (hq : ∀ a s2, Leads vars s2 { s2 with toContext := mode.leave s2.toContext } → Q a s2 →
      Q' a { s2 with toContext := mode.leave s2.toContext }) :
    Ensures (Leads vars) E (inScope mode kind node body) s Q' := by
  have hleave : ∀ s2, Leads vars s s2 →
      Leads vars s2 { s2 with toContext := mode.leave s2.toContext } :=
    fun s2 h2 => .of_context (ScopeMode.leads_leave h2.wellFormed mode)
  exact .bracket (ensures_ofCheck (ScopeMode.ensures_enter hc h)).runs
    (fun s1 h1 hr => hbody s1 h1 hr.1) hleave fun a s2 h2 hv => hq a s2 (hleave s2 h2) hv

lemma ensures_whileResolving {body : [Access] → Resolve α} {Q : α → Context → Prop}
    (hc : s.WellFormed)
    (hbody : ∀ s1, s1.toContext = s.toContext → Ensures (Leads vars) E body s1
      fun a s' => Q a s'.toContext) :
    Ensures (Leads vars) E (whileResolving n body) s fun a s' => Q a s'.toContext := by
  refine .bracket (T := fun _ s1 => s1.toContext = s.toContext)
    (.of_runs (fun _ => rfl) (.of_resolving hc _) rfl) (fun s1 _ heq => hbody s1 heq)
    (fun s2 h2 => .of_resolving h2.wellFormed _) fun a s2 _ hq => hq

/-- Other scopes may be open for a while. -/
lemma ensures_withStack {stack : List ScopeId} {body : [Access] → Resolve α} (hc : s.WellFormed)
    (hstack : ∀ id ∈ stack, id < s.scopes.size)
    (hbody : Ensures (Leads vars) E body { s with stack } fun _ _ => True) :
    Ensures (Leads vars) E (withStack stack body) s fun _ _ => True := by
  refine .get_bind
    (.bracket (T := fun _ s1 => s1 = { s with stack }) (.of_runs (fun _ => rfl) ?_ rfl)
    (fun s1 _ heq => heq ▸ hbody) (fun s2 h2 => ?_) fun _ _ _ _ => trivial)
  · exact .of_context (.op hc (.setStack stack) hstack)
  -- the scopes that are open again afterwards are still there
  · refine .of_context (.op h2.wellFormed (.setStack s.stack) fun id hid => ?_)
    exact (hc.stack id hid).trans_le h2.context.steps.onward.scopes_le

/-! ### Expressions -/

/-- A property of well-formed contexts that stays as long as nothing is done to scopes. -/
structure Lasting (plan : Plan) (I : Context → Prop) : Prop where
  wellFormed : ∀ {c : Context}, I c → c.WellFormed
  onward : ∀ {c c' : Context}, I c → c.Leads c' → c.Quiet plan c' → I c'

lemma lasting_wellFormed (plan : Plan) : Lasting plan Context.WellFormed :=
  ⟨fun h => h, fun _ h _ => h.wellFormed⟩

/-- Variables may be demanded wherever the property holds, and nothing is done to scopes then. -/
structure Answers (plan : Plan) (vars : List VariableDecl) (E : Cause → Prop)
    (demand : [Access] → NodeId → Resolve Unit) (I : Context → Prop := Context.WellFormed) :
    Prop where
  lasting : Lasting plan I
  quiet : ∀ n, Within (Along (Context.Quiet plan)) (demand n)
  ensures : ∀ n s, I s.toContext → Ensures (Leads vars) E (demand n) s fun _ _ => True

/-- What an expression gives: a slot that exists, and types for all its nodes. -/
def Gives (ns : List NodeId) (x : Slot) (s : Resolving) : Prop :=
  x < s.types.size ∧ s.Typed ns

/-- A rule types the node of an expression whose parts are typed already. -/
lemma ensures_rule {x : [Access] → Check Slot} {ns : List NodeId}
    (h : Ensures Context.Leads E x s.toContext (Check.Gives n)) (hns : s.Typed ns) :
    Ensures (Leads vars) E (ofCheck x) s (Gives (n :: ns)) :=
  (ensures_ofCheck h).imp fun _ _ hl hx => ⟨hx.1, .cons hx.2 (hl.typed hns)⟩

section

variable {plan : Plan} {demand : [Access] → NodeId → Resolve Unit} {I : Context → Prop}
  {v : VariableDecl}

/-- What lasts still holds after a step that does nothing to scopes. -/
lemma Answers.keeps {x : [Access] → Resolve α} {Q : α → Resolving → Prop}
    (hd : Answers plan vars E demand I)
    (hs : I s.toContext) (hw : Within (Along (Context.Quiet plan)) x)
    (hx : Ensures (Leads vars) E x s Q) :
    Ensures (Leads vars) E x s fun a s' => I s'.toContext ∧ Q a s' :=
  hx.runs.imp fun _ _ hl hr => ⟨hd.lasting.onward hs hl.context (hw.of_runs hr.1), hr.2⟩

lemma Answers.quiet_expr (hd : Answers plan vars E demand I) (e : Expr) :
    Within (Along (Context.Quiet plan)) (expr plan demand e) :=
  within_expr plan hd.quiet e

lemma ensures_operandOrType {e : Expr} {asValue : [Access] → Resolve Slot}
    (hd : Answers plan vars E demand I) (hs : I s.toContext)
    (h : ∀ {s1 : Resolving}, I s1.toContext → Ensures (Leads vars) E asValue s1 (Gives e.nodes)) :
    Ensures (Leads vars) E (operandOrType e asValue) s fun x s' => Gives e.nodes x.1 s' := by
  refine (hd.keeps hs (within_ofCheck (within_typeName e))
    (ensures_ofCheck (ensures_typeName (hd.lasting.wellFormed hs) e))).bind
    fun t s1 h1 ⟨hs1, ht⟩ => ?_
  split
  · exact .pure (.refl h1.wellFormed) (ht _ rfl)
  · exact (h hs1).map fun _ _ hx => hx

lemma ensures_identifier [Cause.Regular E] (hd : Answers plan vars E demand I) (hs : I s.toContext)
    (name : Ident) : Ensures (Leads vars) E (identifier demand name) s (Gives [name.id]) := by
  have hc := hd.lasting.wellFormed hs
  refine .get_bind ?_
  simp only [hc.declarationOf?_at]
  split
  · next declaration _ =>
    refine (hd.ensures declaration s hs).bind fun _ s1 h1 _ => ?_
    refine (ensures_ofCheck (Check.ensures_slotOf h1.wellFormed declaration)).bind
      fun x s2 h2 hx => ?_
    exact ensures_rule (Check.ensures_bind h2.wellFormed name.id hx.1) .nil
  · exact .fail (.refl hc) (ordinary rfl)

lemma ensures_memberRule [Cause.Regular E] (hd : Answers plan vars E demand I)
    (hs : I s.toContext) (node : Node) {object : Expr} (name : Ident) {x : Slot}
    (hx : x < s.types.size) (ht : s.Typed object.nodes) :
    Ensures (Leads vars) E (memberRule plan demand node object name x) s
      (Gives (node.id :: object.nodes)) := by
  have hc := hd.lasting.wellFormed hs
  have hv := hc.valueOf_lt hx
  refine .get_bind ?_
  simp only [hc.type_at hx, hc.type_at hv, hc.findField?_at hv]
  split
  · split
    · exact .fail (.refl hc) (ordinary rfl)
    · next field hfield =>
      have hlt := hc.findField?_lt hfield
      split
      · next declaration _ =>
        refine (hd.ensures declaration s hs).bind fun _ s1 h1 _ => ?_
        exact ensures_rule (Check.ensures_bind h1.wellFormed _ (h1.lt hlt)) (h1.typed ht)
      · exact ensures_rule (Check.ensures_bind hc _ hlt) ht
  · split
    · exact ensures_rule (Check.ensures_slotOf hc _) ht
    · exact .fail (.refl hc) (ordinary rfl)

mutual

/-- **Resolving an expression** types it with all its parts. -/
lemma ensures_expr [Cause.Regular E] (hd : Answers plan vars E demand I) :
    ∀ (e : Expr) {s : Resolving}, I s.toContext →
      Ensures (Leads vars) E (expr plan demand e) s (Gives e.nodes)
  | .literal node value, s, hs => by
    refine ensures_rule (Check.ensures_setShape (hd.lasting.wellFormed hs) node.id ?_) .nil
    cases value <;> exact .leaf rfl rfl
  | .identifier name, _, hs => ensures_identifier hd hs name
  | .self node, _, hs => ensures_rule (ensures_selfRule (hd.lasting.wellFormed hs) node) .nil
  | .super node, _, hs => ensures_rule (ensures_superRule (hd.lasting.wellFormed hs) node) .nil
  | .call node callee arguments, s, hs => by
    unfold expr
    refine (hd.keeps hs (within_operandOrType _ (hd.quiet_expr callee))
      (ensures_operandOrType hd hs fun h => ensures_expr hd callee h)).bind
      fun x s1 h1 ⟨hs1, hx⟩ => ?_
    refine (hd.keeps hs1 (within_ofCheck (within_callParameters _ _ _ _ _)) (ensures_ofCheck
      (ensures_callParameters h1.wellFormed node callee arguments hx.1 x.2))).bind
      fun ps s2 h2 ⟨hs2, hps⟩ => ?_
    cases ps with
    | none =>
      -- the name of a class is called without arguments
      obtain rfl := hps.1 rfl
      refine ensures_rule (Check.ensures_bind h2.wellFormed _ (h2.lt hx.1)) ?_
      exact .append (h2.typed hx.2) .nil
    | some parameters =>
      obtain ⟨hlen, hlt⟩ := hps.2 parameters rfl
      refine (ensures_callArguments hd _ 0 arguments parameters hlen.symm hs2 hlt).bind
        fun _ s3 h3 hargs => .get_bind ?_
      have hlt := h3.lt (h2.lt hx.1)
      simp only [h3.wellFormed.type_at hlt]
      exact ensures_rule (Check.ensures_bind h3.wellFormed _ (h3.wellFormed.valueOf_lt hlt))
        (.append (h3.typed (h2.typed hx.2)) hargs)
  | .binary node op left right, s, hs => by
    unfold expr
    refine (hd.keeps hs (hd.quiet_expr left) (ensures_expr hd left hs)).bind
      fun l s1 h1 ⟨hs1, hl⟩ => ?_
    -- on the right of `is` there may be the name of a type
    have hright : Ensures (Leads vars) E
        (if op = .is then (·.1) <$> operandOrType right (expr plan demand right)
          else expr plan demand right) s1 (Gives right.nodes) := by
      split
      · exact (ensures_operandOrType hd hs1 fun h => ensures_expr hd right h).map
          fun _ _ hx => hx
      · exact ensures_expr hd right hs1
    have hrule : ∀ r s2, Leads vars s1 s2 → Gives right.nodes r s2 → Ensures (Leads vars) E
        (ofCheck (binaryRule node op left right l r)) s2
        (Gives (node.id :: (left.nodes ++ right.nodes))) := fun r s2 h2 hr =>
      ensures_rule (ensures_binaryRule h2.wellFormed node op left right (h2.lt hl.1) hr.1)
        (.append (h2.typed hl.2) hr.2)
    dsimp only
    split
    · next h =>
      simp only [if_pos h] at hright
      exact hright.bind hrule
    · next h =>
      simp only [if_neg h] at hright
      exact hright.bind hrule
  | .unary node op operand, s, hs =>
    (ensures_expr hd operand hs).bind fun _ _ h1 hx =>
      ensures_rule (ensures_unaryRule h1.wellFormed node op operand hx.1) hx.2
  | .member node object name, s, hs => by
    unfold expr
    refine (hd.keeps hs (within_operandOrType _ (hd.quiet_expr object))
      (ensures_operandOrType hd hs fun h => ensures_expr hd object h)).bind
      fun x s1 h1 ⟨hs1, hx⟩ => ?_
    dsimp only
    split
    · exact ensures_rule (ensures_itemRule h1.wellFormed node name hx.1) hx.2
    · exact ensures_memberRule hd hs1 node name hx.1 hx.2
  | .index node array position, s, hs => by
    refine (hd.keeps hs (hd.quiet_expr array) (ensures_expr hd array hs)).bind
      fun a s1 h1 ⟨hs1, ha⟩ => ?_
    refine (ensures_expr hd position hs1).bind fun p s2 h2 hp => ?_
    exact ensures_rule (ensures_indexRule h2.wellFormed node array position (h2.lt ha.1) hp.1)
      (.append (h2.typed ha.2) hp.2)
  | .assign node target value, s, hs => by
    refine .refuse (.refl (hd.lasting.wellFormed hs)) (ordinary rfl) fun _ => ?_
    refine (hd.keeps hs (hd.quiet_expr target) (ensures_expr hd target hs)).bind
      fun t s1 h1 ⟨hs1, ht⟩ => ?_
    refine (ensures_expr hd value hs1).bind fun v s2 h2 hv => ?_
    exact ensures_rule (ensures_assignRule h2.wellFormed node value (h2.lt ht.1) hv.1)
      (.append (h2.typed ht.2) hv.2)
  | .array node elements, s, hs =>
    (ensures_exprs hd elements hs).bind fun _ _ h1 hslots =>
      ensures_rule (ensures_arrayRule h1.wellFormed node elements hslots.1) hslots.2
  | .record node fields, s, hs => by
    refine (ensures_fieldValues hd fields hs).bind fun slots s1 h1 hslots => .get_bind ?_
    refine ensures_rule (Check.ensures_setShape h1.wellFormed node.id
      (h1.wellFormed.knows_here rfl ?_)) hslots.2
    simp only [Shape.handles, Shape.components, Shape.nominalHandles, List.append_nil,
      List.forall_mem_map]
    exact hslots.1
  | .shorthand node _, s, hs =>
    ensures_rule (Check.ensures_setShape (hd.lasting.wellFormed hs) node.id (.leaf rfl rfl)) .nil

lemma ensures_exprs [Cause.Regular E] (hd : Answers plan vars E demand I) :
    ∀ (es : List Expr) {s : Resolving}, I s.toContext →
      Ensures (Leads vars) E (exprs plan demand es) s fun slots s' =>
        (∀ y ∈ slots, y < s'.types.size) ∧ s'.Typed (Expr.nodesAll es)
  | [], _, hs => .pure (.refl (hd.lasting.wellFormed hs)) ⟨by simp, .nil⟩
  | e :: rest, _, hs => by
    refine (hd.keeps hs (hd.quiet_expr e) (ensures_expr hd e hs)).bind fun x s1 h1 ⟨hs1, hx⟩ => ?_
    refine (ensures_exprs hd rest hs1).bind fun slots s2 h2 hslots => ?_
    exact .pure (.refl h2.wellFormed) ⟨List.forall_mem_cons.mpr ⟨h2.lt hx.1, hslots.1⟩,
      .append (h2.typed hx.2) hslots.2⟩

lemma ensures_fieldValues [Cause.Regular E] (hd : Answers plan vars E demand I) :
    ∀ (values : List FieldValue) {s : Resolving}, I s.toContext →
      Ensures (Leads vars) E (fieldValues plan demand values) s fun slots s' =>
        (∀ f ∈ slots, f.2 < s'.types.size) ∧ s'.Typed (FieldValue.nodesAll values)
  | [], _, hs => .pure (.refl (hd.lasting.wellFormed hs)) ⟨by simp, .nil⟩
  | ⟨_, name, value⟩ :: rest, _, hs => by
    refine (hd.keeps hs (hd.quiet_expr value) (ensures_expr hd value hs)).bind
      fun x s1 h1 ⟨hs1, hx⟩ => ?_
    refine (ensures_fieldValues hd rest hs1).bind fun slots s2 h2 hslots => ?_
    exact .pure (.refl h2.wellFormed) ⟨List.forall_mem_cons.mpr ⟨h2.lt hx.1, hslots.1⟩,
      .append (h2.typed hx.2) hslots.2⟩

lemma ensures_callArguments [Cause.Regular E] (hd : Answers plan vars E demand I)
    (callee : String) :
    ∀ (i : Nat) (arguments : List Expr) (parameters : List (String × Slot)) {s : Resolving},
      arguments.length = parameters.length → I s.toContext →
      (∀ f ∈ parameters, f.2 < s.types.size) →
        Ensures (Leads vars) E (callArguments plan demand callee i arguments parameters) s
          fun _ s' => s'.Typed (Expr.nodesAll arguments)
  | _, [], [], _, _, hs, _ => .pure (.refl (hd.lasting.wellFormed hs)) .nil
  | _, [], _ :: _, _, hlen, _, _ => by cases hlen
  | _, _ :: _, [], _, hlen, _, _ => by cases hlen
  | i, argument :: arguments, (_, expected) :: parameters, s, hlen, hs, hps => by
    obtain ⟨hexpected, hrest⟩ := List.forall_mem_cons.mp hps
    refine (hd.keeps hs (hd.quiet_expr argument) (ensures_expr hd argument hs)).bind
      fun x s1 h1 ⟨hs1, hx⟩ => ?_
    refine (hd.keeps hs1 (within_ofCheck (within_checkAssignable _ _ _ _)) (ensures_ofCheck
      (ensures_checkAssignable h1.wellFormed (h1.lt hexpected) argument hx.1 _))).bind
      fun _ s2 h2 ⟨hs2, _⟩ => ?_
    refine (ensures_callArguments hd callee (i + 1) arguments parameters (Nat.succ.inj hlen)
      hs2 fun f hf => h2.lt (h1.lt (hrest f hf))).imp fun _ s3 h3 hargs => ?_
    exact .append (h3.typed (h2.typed hx.2)) hargs

end

/-! ### Variables -/

/-- A variable is typed with its annotation and its value. -/
lemma ensures_variableType [Cause.Regular E] (hs : I s.toContext)
    (hd : Answers plan vars E demand I) (v : VariableDecl) :
    Ensures (Leads vars) E (variableType plan demand v) s fun _ s' => s'.Typed v.nodes := by
  refine (hd.keeps hs (within_ofCheck (Check.within_slotOf _))
    (ensures_ofCheck (Check.ensures_slotOf (hd.lasting.wellFormed hs) v.id))).bind
    fun y s1 h1 ⟨hs1, hy⟩ => ?_
  have hv : ∀ {s2 : Resolving}, Leads vars s1 s2 → ∃ x, s2.nodeType? v.id = some x :=
    fun h => ⟨y, h.context.steps.onward.nodeType _ _ hy.2⟩
  unfold VariableDecl.nodes
  split
  · next type htype =>
    rw [htype]
    refine (hd.keeps hs1 (within_ofCheck (TypeExpr.within_resolve _ _))
      (ensures_ofCheck (TypeExpr.ensures_resolve type h1.wellFormed False.elim).leads)).bind
      fun t s2 h2 ⟨hs2, ht⟩ => ?_
    refine (hd.keeps hs2 (within_ofCheck (Check.within_assign _ _))
      (ensures_ofCheck (Check.ensures_assign h2.wellFormed (h2.lt hy.1) ht.1.1))).bind
      fun _ s3 h3 ⟨hs3, _⟩ => ?_
    split
    · next e hvalue =>
      rw [hvalue]
      refine (ensures_expr hd e hs3).bind fun x s4 h4 hx => ?_
      refine (ensures_ofCheck (ensures_checkAssignable h4.wellFormed
        (h4.lt (h3.lt (h2.lt hy.1))) e hx.1 _)).imp fun _ s5 h5 _ => ?_
      obtain ⟨_, hid⟩ := hv (((h2.trans h3).trans h4).trans h5)
      exact .cons hid (.append (((h3.trans h4).trans h5).typed (ht.2 rfl)) (h5.typed hx.2))
    · next hvalue =>
      rw [hvalue]
      obtain ⟨_, hid⟩ := hv (h2.trans h3)
      exact .pure (.refl h3.wellFormed) (.cons hid (.append (h3.typed (ht.2 rfl)) .nil))
  · next e htype hvalue =>
    rw [htype, hvalue]
    refine (ensures_expr hd e hs1).bind fun x s2 h2 hx => .get_bind ?_
    simp only [h2.wellFormed.type_at hx.1]
    refine .refuse (.refl h2.wellFormed) (ordinary rfl) fun _ => ?_
    refine (ensures_ofCheck (Check.ensures_assign h2.wellFormed (h2.lt hy.1) hx.1)).imp
      fun _ s3 h3 _ => ?_
    obtain ⟨_, hid⟩ := hv (h2.trans h3)
    exact .cons hid (.append .nil (h3.typed hx.2))
  · exact .fail (.refl h1.wellFormed) (ordinary rfl)

lemma ensures_isTaken {n : NodeId} {f : [Access] → Bool → Resolve β} {P : β → Resolving → Prop}
    (h : Ensures (Leads vars) E (f (s.resolved.contains n || s.resolving.contains n)) s P) :
    Ensures (Leads vars) E (isTaken n >>= f) s P :=
  .of_outcome (fun _ => by rw [outcome_bind]; rfl) h fun _ h' => h'

/-- **Resolving a variable once.** Its name is declared only in the body of a function, where a
scope is open. -/
lemma ensures_variableDecl_of_declare [Cause.Regular E] (hs : I s.toContext)
    (hd : Answers plan vars E demand I) (hv : ∀ w ∈ vars, w.id = v.id → w = v)
    (hdeclare : ∀ c, s.toContext.Leads c → s.toContext.Quiet plan c → c.currentKind? = some .body →
      Ensures Context.Leads E (Check.declare v.name.name .value v.id v.location) c
        fun _ _ => True) : Ensures (Leads vars) E (variableDecl plan demand v) s fun _ s' =>
      v.id ∉ s.resolved → v.id ∉ s.resolving → v.id ∈ s'.resolved ∧ s'.Typed v.nodes := by
  have hc := hd.lasting.wellFormed hs
  refine ensures_isTaken ?_
  split
  · next htaken =>
    have htaken : v.id ∈ s.resolved ∨ v.id ∈ s.resolving := by simpa using htaken
    exact .pure (.refl hc) fun h h' => absurd htaken (by simp [h, h'])
  · refine (ensures_whileResolving (Q := fun _ c => c.Typed v.nodes) hc fun s1 heq => ?_).runs.bind
      fun _ s2 h2 ⟨hr, ht⟩ => ?_
    · exact ensures_variableType (heq ▸ hs) hd v
    have hquiet : s.toContext.Quiet plan s2.toContext := (within_whileResolving
      (within_variableType plan hd.quiet v)).of_runs hr
    have hvalue : s2.Typed (Expr.nodes? v.value) := fun n hn =>
      ht n (List.mem_cons_of_mem _ (List.mem_append_right _ hn))
    have hsettle := Leads.settle h2.wellFormed hv hvalue
    have hmodify : Ensures (Leads vars) E
        (modify fun s => { s with resolved := v.id :: s.resolved }) s2
        fun (_ : PUnit) s' => s'.toContext = s2.toContext ∧ v.id ∈ s'.resolved ∧ s'.Typed v.nodes :=
      .of_runs (fun _ => rfl) hsettle ⟨rfl, List.mem_cons_self, ht⟩
    refine hmodify.bind fun _ s3 h3 ⟨heq, hdone⟩ => .get_bind ?_
    simp only [h3.wellFormed.currentKind?_at]
    split
    · next hkind =>
      -- a local variable: the block around it is open
      rw [← heq] at hquiet
      refine (ensures_ofCheck (hdeclare s3.toContext (h2.trans h3).context hquiet hkind)).imp
        fun _ s4 h4 _ _ _ => ⟨h4.resolved _ hdone.1, h4.typed hdone.2⟩
    · exact .pure (.refl h3.wellFormed) fun _ _ => hdone

/-- In the body of a function there is a scope to declare the name in. -/
lemma ensures_declare_body [Cause.Permitted E] {c : Context} (hc : c.WellFormed)
    (hkind : c.currentKind? = some .body) (v : VariableDecl) :
    Ensures Context.Leads E (Check.declare v.name.name .value v.id v.location) c
      fun _ _ => True :=
  Check.ensures_declare hc _ _ _ _ (.inr fun hnone => by
    simp [Context.currentKind?, hnone] at hkind)

lemma ensures_variableDecl [Cause.Permitted E] (hs : I s.toContext)
    (hd : Answers plan vars E demand I) (hv : ∀ w ∈ vars, w.id = v.id → w = v) :
    Ensures (Leads vars) E (variableDecl plan demand v) s fun _ s' =>
      v.id ∉ s.resolved → v.id ∉ s.resolving → v.id ∈ s'.resolved ∧ s'.Typed v.nodes :=
  ensures_variableDecl_of_declare hs hd hv fun _ hl _ hkind =>
    ensures_declare_body hl.wellFormed hkind v

/-- **A demand** resolves one of the planned variables, with the scopes around it open. -/
lemma answers_demandWithin_of_declare [Cause.Regular E] (hI : Lasting plan I)
    (hstack : ∀ {c : Context} {stack : List ScopeId}, I c → (∀ id ∈ stack, id < c.scopes.size) →
      I { c with stack })
    (hplan : ∀ n q, plan.pending.get? n = some q → ∀ w ∈ vars, w.id = q.decl.id → w = q.decl)
    (hdeclare : ∀ {n q id} {c c' : Context}, plan.pending.get? n = some q → I c →
      c.scopeOf? q.owner = some id → c'.WellFormed →
      Context.Quiet plan { c with stack := c.around id } c' → c'.currentKind? = some .body →
      Ensures Context.Leads E (Check.declare q.decl.name.name .value q.decl.id q.decl.location) c'
        fun _ _ => True) :
    ∀ depth : Nat, Answers plan vars E (demandWithin plan depth) I
  | 0 => ⟨hI, quiet_demandWithin plan 0, fun _ _ hs => .pure (.refl (hI.wellFormed hs)) trivial⟩
  | depth + 1 => by
    refine ⟨hI, quiet_demandWithin plan (depth + 1), fun n s hs => ?_⟩
    have hc := hI.wellFormed hs
    unfold demandWithin
    split
    · exact .pure (.refl hc) trivial
    · next q hq =>
      refine ensures_isTaken ?_
      split
      · exact .pure (.refl hc) trivial
      · refine .get_bind ?_
        split
        · exact .pure (.refl hc) trivial
        · next scope hscope =>
          have hlt := hc.nodeScopes _ _ hscope
          have haround := hc.around_lt hlt
          simp only [hc.around_at hlt]
          refine ensures_withStack hc haround ?_
          exact (ensures_variableDecl_of_declare (s := { s with stack := s.around scope })
            (hstack hs haround) (answers_demandWithin_of_declare hI hstack hplan hdeclare depth)
            (hplan n q hq) fun _ hl hquiet hkind =>
              hdeclare hq hs hscope hl.wellFormed hquiet hkind).within.imp fun _ _ _ _ => trivial

lemma answers_demand [Cause.Permitted E]
    (hplan : ∀ n q, plan.pending.get? n = some q → ∀ w ∈ vars, w.id = q.decl.id → w = q.decl) :
    Answers plan vars E (Resolve.demand plan) := by
  refine answers_demandWithin_of_declare (lasting_wellFormed plan)
    (fun {c stack} hc hlt => ?_) hplan
    (fun _ _ _ hc' _ hkind => ensures_declare_body hc' hkind _) plan.size
  exact (Context.Leads.op hc (.setStack stack) hlt).wellFormed

end

/-! ### Statements -/

/-- The current scope is inside a function whose type is known. -/
def InFunction (c : Context) : Prop :=
  ∃ id returns ps, c.enclosing? .function = some id ∧
    ((c.scope? id).bind fun scope => c.shape? scope.node) = some (.function returns ps)

lemma ensures_enclosingResult (hc : c.WellFormed) (l : Location)
    (h : E .returnOutsideFunction ∨ InFunction c) :
    Ensures Context.Leads E (enclosingResult l) c fun x c' =>
      c' = c ∧ x.1 < c'.scopes.size ∧ x.2 < c'.types.size := by
  refine .get_bind ?_
  simp only [hc.enclosing?_at]
  split
  · next hnone =>
    refine .fail (.refl hc) (h.resolve_right ?_)
    rintro ⟨id, _, _, hid, -⟩
    cases hnone.symm.trans hid
  · next id hid =>
    simp only [Context.scope?_at (hc.enclosing?_lt hid), hc.shape?_at]
    split
    · next returns ps hshape =>
      obtain ⟨sc, -, hsc⟩ := Option.bind_eq_some_iff.mp hshape
      refine .pure (.refl hc) ⟨rfl, hc.enclosing?_lt hid, (hc.knows_shape? hsc).handles _ ?_⟩
      simp [Shape.handles, Shape.components]
    · next hnone =>
      refine .fail (.refl hc) (h.resolve_right ?_)
      rintro ⟨id', returns, ps, hid', hshape⟩
      cases hid.symm.trans hid'
      exact hnone returns ps hshape

section

variable {plan : Plan} {mode : ScopeMode} {I : Context → Prop}

lemma ensures_returnRule [Cause.Regular E] (hs : I s.toContext)
    (hd : Answers plan vars E (demand plan) I) (node : Node) (value : Option Expr)
    (h : E .returnOutsideFunction ∨ InFunction s.toContext) :
    Ensures (Leads vars) E (returnRule plan node value) s fun _ s' =>
      s'.Typed (Expr.nodes? value) := by
  have hc := hd.lasting.wellFormed hs
  refine (ensures_ofCheck (ensures_enclosingResult hc node.location h)).bind
    fun x s1 h1 ⟨heq, hx⟩ => .get_bind ?_
  have hmark : ∀ {s2 : Resolving} {ns : List NodeId}, Leads vars s1 s2 → s2.Typed ns →
      Ensures (Leads vars) E
        (modify fun s => { s with toContext := s.toContext.markReturn x.1 }) s2
        fun (_ : PUnit) s' => s'.Typed ns := fun {s2 ns} h2 hns =>
    have hlt := hx.1.trans_le h2.context.steps.onward.scopes_le
    have hleads : s2.toContext.Leads _ := .op h2.wellFormed (.markReturn x.1) hlt
    .of_runs (a := ()) (fun A => runs_modify.mpr (by
      simp only [Context.markReturn, Context.modifyScope_at hlt]; rfl)) (.of_context hleads)
        (hleads.typed hns)
  simp only [h1.wellFormed.type_at hx.2]
  split
  · exact (Ensures.fail (Q := fun _ _ => False) (.refl h1.wellFormed) (ordinary rfl)).bind
      fun _ _ _ h => h.elim
  · next e _ =>
    refine (ensures_expr hd e (heq ▸ hs)).bind fun found s2 h2 hfound => ?_
    refine (ensures_ofCheck (ensures_checkAssignable h2.wellFormed (h2.lt hx.2) e hfound.1 _)).bind
      fun _ s3 h3 _ => ?_
    exact hmark (h2.trans h3) (h3.typed hfound.2)
  · exact (Ensures.fail (Q := fun _ _ => False) (.refl h1.wellFormed) (ordinary rfl)).bind
      fun _ _ _ h => h.elim
  · exact hmark (.refl h1.wellFormed) .nil

lemma ensures_condition [Cause.Regular E] (hs : I s.toContext)
    (hd : Answers plan vars E (demand plan) I) (e : Expr) :
    Ensures (Leads vars) E (condition plan e) s fun _ s' => s'.Typed e.nodes := by
  refine (ensures_expr hd e hs).bind fun x s1 h1 hx => .get_bind ?_
  simp only [h1.wellFormed.type_at hx.1]
  split
  · exact .pure (.refl h1.wellFormed) hx.2
  · exact .fail (.refl h1.wellFormed) (ordinary rfl)

/-- The node of a statement is typed last. -/
lemma ensures_typeVoid (hc : s.WellFormed) (node : Node) {ns : List NodeId}
    (hns : s.Typed ns) :
    Ensures (Leads vars) E (ofCheck (typeVoid node)) s fun _ s' =>
      s'.Typed (node.id :: ns) := by
  have hset : Ensures Context.Leads E (typeVoid node) s.toContext fun _ c =>
      ∃ x, c.nodeType? node.id = some x :=
    (Check.ensures_setShape hc node.id (.leaf rfl rfl)).bind fun x _ h1 hx =>
      .pure (.refl h1.wellFormed) ⟨x, hx.2⟩
  exact (ensures_ofCheck hset).imp fun _ _ h ⟨_, hx⟩ => .cons hx (h.typed hns)

lemma mustReopen_body (mode : ScopeMode) (c : Context) : mode.mustReopen c .body = false := by
  cases mode <;> rfl

end

/-! ### Bodies and declarations, whatever may be wrong with them -/

section

variable {plan : Plan} {mode : ScopeMode}

/-- Without variables to keep track of, and with any fault allowed that is not about the
hierarchy. -/
abbrev Intact (x : [Access] → Resolve α) (s : Resolving) : Prop :=
  Ensures (Leads []) (fun cause => cause.isCyclic = false) x s fun _ _ => True

lemma answers_intact : Answers plan [] (fun cause => cause.isCyclic = false) (demand plan) :=
  answers_demand fun _ _ _ _ hw => absurd hw List.not_mem_nil

lemma intact_variableDecl (hc : s.WellFormed) (v : VariableDecl) :
    Intact (variableDecl plan (demand plan) v) s :=
  (ensures_variableDecl hc answers_intact fun _ hw => absurd hw List.not_mem_nil).imp
    fun _ _ _ _ => trivial

lemma intact_typeVoid (hc : s.WellFormed) (node : Node) :
    Intact (ofCheck (typeVoid node)) s :=
  (ensures_typeVoid hc node .nil).imp fun _ _ _ _ => trivial

lemma intact_inScope {kind : ScopeKind} {node : Node} {body : [Access] → Resolve α}
    (hc : s.WellFormed) (hbody : ∀ {s1 : Resolving}, s1.WellFormed →
      Intact body s1) : Intact (inScope mode kind node body) s :=
  ensures_inScope hc (.inl rfl) (fun _ h1 _ => hbody h1.wellFormed) fun _ _ _ _ => trivial

mutual

lemma intact_stmt : ∀ (t : Stmt) {s : Resolving}, s.WellFormed →
    Intact (stmt mode plan t) s
  | .expression node value, _, hc => (ensures_expr answers_intact value hc).bind fun _ _ h1 _ =>
      intact_typeVoid h1.wellFormed node
  | .var v, _, hc => (intact_variableDecl hc v).within.bind fun _ _ h1 _ =>
      intact_typeVoid h1.wellFormed v.toNode
  | .ret node value, _, hc =>
    (ensures_returnRule hc answers_intact node value (.inl rfl)).bind fun _ _ h1 _ =>
      intact_typeVoid h1.wellFormed node
  | .branch node test yes no, _, hc => by
    unfold stmt
    refine (ensures_condition hc answers_intact test).bind fun _ s1 h1 _ => ?_
    refine (intact_block yes h1.wellFormed).bind fun _ s2 h2 _ => ?_
    cases no with
    | none => exact intact_typeVoid h2.wellFormed node
    | some other =>
      exact (intact_block other h2.wellFormed).bind fun _ _ h3 _ =>
        intact_typeVoid h3.wellFormed node
  | .loop node test body, _, hc =>
    (ensures_condition hc answers_intact test).bind fun _ _ h1 _ =>
      (intact_block body h1.wellFormed).bind fun _ _ h2 _ => intact_typeVoid h2.wellFormed node
  | .block b, _, hc => (intact_block b hc).bind fun _ _ h1 _ =>
      intact_typeVoid h1.wellFormed b.toNode

lemma intact_stmts : ∀ (ts : List Stmt) {s : Resolving}, s.WellFormed →
    Intact (stmts mode plan ts) s
  | [], _, hc => .pure (.refl hc) trivial
  | t :: rest, _, hc => (intact_stmt t hc).bind fun _ _ h1 _ => intact_stmts rest h1.wellFormed

lemma intact_block : ∀ (b : Block) {s : Resolving}, s.WellFormed →
    Intact (block mode plan b) s
  | ⟨node, statements⟩, _, hc =>
    (intact_inScope hc fun h => intact_stmts statements h).bind fun _ _ h1 _ =>
      intact_typeVoid h1.wellFormed node

end

/-- After the body of a function its scope is still there. -/
lemma ensures_checkReturns [Cause.Regular E] {s1 : Resolving} (hc : s.WellFormed)
    (h1 : Leads vars s s1) (f : FunctionDecl) :
    Ensures (Leads vars) E (ofCheck (checkReturns f s.current?)) s1 fun _ _ => True := by
  have hfound : ∀ A : Access, s.current?.bind (@Context.scope? A s1.toContext) =
      s.current?.bind (@Context.scope? .usual s1.toContext) := fun A => Option.bind_congr
    fun id hid => Context.scope?_at
      ((hc.current?_lt hid).trans_le h1.context.steps.onward.scopes_le) A
  replace hc := h1.wellFormed
  refine ensures_ofCheck (Q := fun _ _ => True) (.get_bind ?_)
  simp only [hc.shape?_at, hfound]
  split
  · next returns _ h =>
    simp only [hc.type_at ((hc.knows_shape? h).handles returns List.mem_cons_self)]
    split
    · exact .pure (.refl hc) trivial
    · refine .refuse (.refl hc) (ordinary rfl) fun _ => ?_
      split
      · exact .fail (.refl hc) (ordinary rfl)
      · exact .pure (.refl hc) trivial
  · exact .pure (.refl hc) trivial

lemma intact_function (hc : s.WellFormed) (f : FunctionDecl) :
    Intact (function mode plan f) s :=
  intact_inScope hc fun h => .get_bind ((intact_block f.body h).bind fun _ _ h1 _ =>
    ensures_checkReturns h h1 f)

mutual

lemma intact_decl : ∀ (d : Decl) {s : Resolving}, s.WellFormed →
    Intact (decl mode plan d) s
  | .object o, _, hc => (intact_object o hc).within
  | .function f, _, hc => (intact_function hc f).within
  | .var v, _, hc => (intact_variableDecl hc v).within
  | .enum _, _, hc | .foreign _, _, hc => .pure (.refl hc) trivial

lemma intact_object : ∀ (o : ClassDecl) {s : Resolving}, s.WellFormed →
    Intact (object mode plan o) s
  | ⟨_, _, _, members⟩, _, hc => intact_inScope hc fun h => intact_decls members h

lemma intact_decls : ∀ (ds : List Decl) {s : Resolving}, s.WellFormed →
    Intact (decls mode plan ds) s
  | [], _, hc => .pure (.refl hc) trivial
  | d :: rest, _, hc => (intact_decl d hc).bind fun _ _ h1 _ => intact_decls rest h1.wellFormed

end

end

lemma ensures_toCheck {x : [Access] → Resolve α} {Q : α → Resolving → Prop}
    (h : Ensures (Leads vars) E x { toContext := c } Q) :
    Ensures Context.Leads E (toCheck x) c fun a c' => ∃ s', Q a s' ∧ s'.toContext = c' := by
  refine ⟨h.state.context, fun a c' hr => ?_, fun f c' hf => ?_, fun A => by
    rw [outcome_toCheck, outcome_toCheck, h.steady A]⟩
  · obtain ⟨s', hs, rfl⟩ := runs_toCheck.mp hr
    exact ⟨s', h.value a s' hs, rfl⟩
  · rw [outcome_toCheck] at hf
    rcases hx : x.outcome { toContext := c } with ⟨e | a, s'⟩
    · rw [hx] at hf
      cases hf
      exact h.fault _ _ hx
    · rw [hx] at hf
      cases hf

/-- **The second walk** from a well-formed context leads to a well-formed context. -/
lemma intact_program (hc : c.WellFormed) (mode : ScopeMode) (p : Program) :
    Ensures Context.Leads (fun _ => True) (program mode p) c fun _ _ => True := by
  refine (Plan.ensures_addDecls p.id p.declarations hc).bind fun plan c1 h1 _ => ?_
  have hwalk : Ensures (Leads []) (fun _ => True) (walk mode plan p) { toContext := c1 }
      fun _ _ => True := by
    refine ensures_inScope (Q := fun _ _ => True) h1.wellFormed (.inl trivial) (fun _ h _ => ?_)
      fun _ _ _ _ => trivial
    refine (ensures_ofCheck (ensures_signatures p.declarations h.wellFormed
      (.inl fun _ => trivial) False.elim).leads).bind fun _ _ h2 _ => ?_
    refine (ensures_ofCheck (ensures_hierarchies (fun _ => trivial) p.declarations
      h2.wellFormed)).bind fun _ _ h3 _ => ?_
    exact (intact_decls p.declarations h3.wellFormed).weaken (fun _ _ => trivial)
      fun _ _ _ _ => trivial
  exact (ensures_toCheck hwalk).imp fun _ _ _ _ => trivial

end Resolve

/-! ### Passes -/

namespace Context

variable {c : Context}

lemma leads_recordFlows (ds : List Decl) (hc : c.WellFormed) : Leads c (c.recordFlows ds) := by
  rw [recordFlows_eq_foldl]
  induction Decl.allOf ds generalizing c with
  | nil => exact .refl hc
  | cons d rest ih =>
    have hd : Leads c (c.recordOwnFlow d) := by
      cases d with
      | function f => exact .op hc (.setFlow f.id f.flowGraph) trivial
      | object | var | enum | foreign => exact .refl hc
    exact hd.trans (ih hd.wellFormed)

lemma recordFlows_at (ds : List Decl) (A : Access) :
    @recordFlows A c ds = @recordFlows .usual c ds := by
  have hown : @recordOwnFlow A = @recordOwnFlow .usual := by
    funext c d
    cases d <;> simp only [recordOwnFlow, FunctionDecl.flowGraph_at]
  simp only [recordFlows_eq_foldl, hown]

end Context

namespace Context.WellFormed

variable {c : Context} (hc : c.WellFormed) (p : Program)
include hc

lemma checkComplete_at (A : Access) : @p.checkComplete A c = @p.checkComplete .usual c := by
  have hcheck : @Completeness.check A c = @Completeness.check .usual c := by
    funext node description
    unfold Completeness.check
    split
    · next s hs => simp only [hc.type_at (hc.nodeTypes _ s hs)]
    · rfl
  simp only [Program.checkComplete, Completeness.checker, hcheck]

lemma checkNulls_at (A : Access) : @p.checkNulls A c = @p.checkNulls .usual c := by
  have hcheck : @Nullability.check A c = @Nullability.check .usual c := by
    funext e
    unfold Nullability.check
    split
    · rfl
    · next s hs =>
      simp only [hc.type_at (hc.nodeTypes _ s hs)]
      rcases h : @TypeStore.optionalInner? .usual c.types s with _ | inner
      · rfl
      · simp only [Option.any_some, TypeStore.get_at (hc.argument_lt h)]
  simp only [Program.checkNulls, Nullability.checker, hcheck]

end Context.WellFormed

namespace Pass

variable {a : Analysis}

/-- Where passes lead from an analysis with a well-formed context. -/
abbrev Leads : Analysis → Analysis → Prop :=
  InvImage Context.Leads Analysis.context

instance : IsTrans Analysis Leads := ⟨fun _ _ _ h h' => Context.Leads.trans h h'⟩

lemma ensures_onContext {x : [Access] → Program → Check Unit}
    (h : Ensures Context.Leads (fun _ => True) (x a.program) a.context fun _ _ => True) :
    Ensures Leads (fun _ => True) (onContext x) a fun _ _ => True :=
  ⟨h.state, fun _ _ _ => trivial, fun _ _ _ => trivial, fun A =>
    congrArg (fun r => (r.1, { a with context := r.2 })) (h.steady A)⟩

lemma ensures_liftExcept {α : Type} {x : [Access] → Except Fault α} (ha : a.context.WellFormed)
    (h : ∀ A : Access, @x A = @x .usual) :
    Ensures Leads (fun _ => True) (run.liftExcept x) a fun _ b => b = a :=
  ⟨.refl ha, fun _ _ hr => (Prod.mk.inj hr).2.symm, fun _ _ _ => trivial, fun A => by rw [h A]⟩

/-- **Every pass** leads from a well-formed context to a well-formed context. -/
lemma ensures_run (ha : a.context.WellFormed) (pass : Pass) :
    Ensures Leads (fun _ => True) pass.run a fun _ _ => True := by
  cases pass with
  | hoist => exact .of_runs (fun _ => rfl) (.refl ha) trivial
  | entryPoint =>
    refine .get_bind ((ensures_liftExcept ha fun _ => rfl).bind fun _ b _ h => ?_)
    cases h
    exact .of_runs (fun _ => rfl) (.refl ha) trivial
  | collect mode =>
    exact ensures_onContext ((Collect.ensures_program ha a.program (.inl fun _ => trivial)).imp
      fun _ _ _ _ => trivial)
  | resolve mode => exact ensures_onContext (Resolve.intact_program ha mode a.program)
  | completeness =>
    exact .get_bind ((ensures_liftExcept ha (ha.checkComplete_at _)).imp fun _ _ _ _ => trivial)
  | nullability =>
    exact .get_bind ((ensures_liftExcept ha (ha.checkNulls_at _)).imp fun _ _ _ _ => trivial)
  | flow =>
    have hflow : Leads a { a with context := a.context.recordFlows a.program.declarations } :=
      Context.leads_recordFlows a.program.declarations ha
    refine .of_runs (a := ()) (fun A => ?_) hflow trivial
    simp only [run, Context.recordFlows_at]
    rfl

lemma ensures_runAll : ∀ (passes : List Pass) {a : Analysis}, a.context.WellFormed →
    Ensures Leads (fun _ => True) (runAll passes) a fun _ _ => True
  | [], _, ha => .pure (.refl ha) trivial
  | pass :: rest, _, ha => (ensures_run ha pass).bind fun _ _ h1 _ =>
      ensures_runAll rest h1.wellFormed

end Pass

/-! ### The invariant -/

namespace Context

variable {c : Context}

/-- What is found by following the numbers in a context is there: the chain of a scope goes on to
its end, names are looked for in existing scopes, and types are made of existing slots. -/
structure InRange (c : Context) : Prop where
  chain : ∀ id < c.scopes.size,
    List.IsChain (fun parent k => c.parent? k = some parent) (c.around id).reverse ∧
      (c.around id).reverse.getLast? = some id ∧
      ∃ root, (c.around id).reverse.head? = some root ∧ c.parent? root = none
  current : ∀ id, c.current? = some id → id < c.scopes.size
  enclosing : ∀ kind id, c.enclosing? kind = some id → id < c.scopes.size
  searched : ∀ kind, ∀ id ∈ c.searched kind, id < c.scopes.size
  parts : ∀ x < c.types.size, ∀ y ∈ c.types.parts x, y < c.types.size
  lineage : ∀ x < c.types.size, ∀ y ∈ c.types.lineage x, y < c.types.size
  value : ∀ x < c.types.size, c.types.valueOf x < c.types.size
  field : ∀ x name y, c.types.findField? x name = some y → y < c.types.size

lemma WellFormed.inRange (hc : c.WellFormed) : c.InRange where
  chain _ hid := hc.chain hid
  current _ h := hc.current?_lt h
  enclosing _ _ h := hc.enclosing?_lt h
  searched := hc.searched_lt
  parts _ hx := hc.parts_lt hx
  lineage _ hx := hc.lineage_lt hx
  value _ hx := hc.valueOf_lt hx
  field _ _ _ h := hc.findField?_lt h

/-- **Contexts stay well formed.** The empty context is well formed. An operation that is given
existing handles keeps a context well formed, also when it ends in a fault, and what it returns
exists. Any passes, in any order, over any program and from any well-formed context, amount to a
sequence of such operations, however they end. In a well-formed context nothing that is looked up
is out of range, and the chain of a scope leads from a scope without a parent to the scope. Neither
the operations nor the passes index out of range: whatever an access beyond the end of an array
would come to, they come to the same. -/
theorem wellFormed_throughout :
    WellFormed {} ∧
    (∀ (c : Context) (op : Op), c.WellFormed → op.Valid c → (op.run.outcome c).2.WellFormed ∧
      ∀ handle c', Runs op.run c handle c' → handle.Exists c') ∧
    (∀ c c' : Context, c.WellFormed → Steps c c' → c'.WellFormed) ∧
    (∀ (passes : List Pass) (a : Analysis), a.context.WellFormed →
      Steps a.context ((Pass.runAll passes).outcome a).2.context ∧
        ((Pass.runAll passes).outcome a).2.context.WellFormed) ∧
    (∀ c : Context, c.WellFormed → c.InRange) ∧
    ∀ A : Access,
      (∀ (c : Context) (op : Op), c.WellFormed → op.Valid c →
        (@Op.run A op).outcome c = (@Op.run .usual op).outcome c) ∧
      ∀ (passes : List Pass) (a : Analysis), a.context.WellFormed →
        (@Pass.runAll A passes).outcome a = (@Pass.runAll .usual passes).outcome a := by
  refine ⟨.empty, fun c op hc h => ⟨op.wellFormed hc h, fun _ _ hr => Op.exists_of_run hc h hr⟩,
    fun c c' hc h => h.wellFormed hc, fun passes a ha => ?_, fun c hc => hc.inRange,
    fun A => ⟨fun c op hc h => Op.run_at hc h A, fun passes a ha => ?_⟩⟩
  · have hleads : a.context.Leads ((Pass.runAll passes).outcome a).2.context :=
      (Pass.ensures_runAll passes ha).state
    exact ⟨hleads.steps, hleads.wellFormed⟩
  · exact (Pass.ensures_runAll passes ha).steady A

/-- A method in a class that is derived from a later one returns a name that does not exist. -/
def misnamed : Program :=
  (StateT.run (m := Id) (do
    let x ← Draft.variableDecl "x" (some (← Draft.namedType "Int" [])) none
    let base ← Draft.classDecl "Base" none [.var x]
    let back ← Draft.returnStmt (some (← Draft.identifier "missing"))
    let m ← Draft.functionDecl "m" [] (some (← Draft.namedType "Int" [])) [back]
    let derived ← Draft.classDecl "Derived" (some (← Draft.namedType "Base" [])) [.function m]
    Draft.program [.object derived, .object base] []) {}).1

/-- The second walk ends in the body of the method, four scopes deep. -/
def brokenOff : Except Fault Unit × Analysis :=
  (Pass.runAll [.collect .fresh, .flow, .resolve .reopen]).outcome { program := misnamed }

theorem wellFormed_throughout_brokenOff :
    brokenOff.1.isOk = false ∧ Steps {} brokenOff.2.context ∧ brokenOff.2.context.WellFormed ∧
      brokenOff.2.context.around 4 = [4, 2, 1, 0] ∧
      List.IsChain (fun parent k => brokenOff.2.context.parent? k = some parent) [0, 1, 2, 4] ∧
      (∀ y ∈ brokenOff.2.context.types.lineage 1, y < brokenOff.2.context.types.size) ∧
      ((Op.bind 100 6).run.outcome brokenOff.2.context).2.WellFormed := by
  obtain ⟨hempty, hop, -, hpasses, hrange, -⟩ := wellFormed_throughout
  have hrun : ∀ r, (Pass.runAll [.collect .fresh, .flow, .resolve .reopen]).outcome
      { program := misnamed } = r → Steps {} r.2.context ∧ r.2.context.WellFormed := by
    rintro _ rfl
    exact hpasses _ { program := misnamed } hempty
  obtain ⟨hsteps, hwf⟩ := hrun brokenOff (by rw [brokenOff])
  have haround : brokenOff.2.context.around 4 = [4, 2, 1, 0] := by decide +kernel
  have hchain := ((hrange brokenOff.2.context hwf).chain 4 (by decide +kernel)).1
  rw [haround] at hchain
  have hvalid : 6 < brokenOff.2.context.types.size := by decide +kernel
  exact ⟨by decide +kernel, hsteps, hwf, haround, hchain,
    (hrange brokenOff.2.context hwf).lineage 1 (by decide +kernel),
    (hop brokenOff.2.context (.bind 100 6) hwf hvalid).1⟩

end Context

end Sema
