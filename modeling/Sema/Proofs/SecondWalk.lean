import Sema.Proofs.Returns
import Sema.Proofs.UniqueNames

/-!
How the second walk goes through a program after the first one. It opens the scopes that the first
walk made. A return is inside the scope of a function, and the function keeps the type that it was
given before the walk came to its body. When the walk is over, every node of the program has a type:
signatures have theirs from the beginning, bodies when the walk has been through them, and the value
of a variable when the variable counts as resolved.

A name is taken exactly where it is repeated among the variables of one block. Variables that are
demanded on the way belong to the program or to a class, and declare nothing, so that a block has
the names of its own statements only.
-/

namespace Sema

open Sema.Action Context

/-! ### The function around a statement -/

namespace Context

variable {P : Shape → Prop} {c c1 c' : Context} {n : NodeId}

/-- The innermost open scope of a function is that of the node. -/
def Inside (c : Context) (n : NodeId) : Prop :=
  ∃ id sc, c.enclosing? .function = some id ∧ c.scope? id = some sc ∧ sc.node = n

namespace Inside

lemma grows (h : c.Inside n) (hc : c.WellFormed) (hg : Grows P c c') : c'.Inside n := by
  obtain ⟨id, sc, hid, hsc, rfl⟩ := h
  obtain ⟨sc', hsc', -, hnode⟩ := hg.scope id sc hsc
  refine ⟨id, sc', ?_, hsc', hnode⟩
  rw [enclosing?, hg.stack, ← hid, enclosing?]
  refine List.find?_congr fun k hk => ?_
  obtain ⟨sck, hsck⟩ : ∃ sck, c.scope? k = some sck :=
    ⟨_, Array.getElem?_eq_getElem (hc.stack k hk)⟩
  obtain ⟨sck', hsck', hkind, -⟩ := hg.scope k sck hsck
  rw [scopeKind?, scopeKind?, hsck, hsck', Option.map_some, Option.map_some, hkind]

/-- A block opens a scope that is no function, so that the search goes on around it. -/
lemma openBlock (h : c.Inside n) (hc : c.WellFormed) (m : NodeId) :
    (c.openScope .body m).2.Inside n := by
  obtain ⟨id, sc, hid, hsc, hnode⟩ := h
  have hlt := hc.stack id (List.mem_of_find?_eq_some hid)
  refine ⟨id, sc, ?_, ?_, hnode⟩
  · have hnew : (c.openScope .body m).2.scopeKind? c.scopes.size = some .body := by
      rw [scopeKind?, scope?_openScope, if_pos rfl]
      rfl
    rw [← hid, enclosing?, enclosing?]
    change List.find? _ (c.scopes.size :: c.stack) = _
    rw [List.find?_cons, hnew]
    refine List.find?_congr fun k hk => ?_
    rw [scopeKind?, scopeKind?, scope?_openScope, if_neg (hc.stack k hk).ne]
  · rw [scope?_openScope, if_neg hlt.ne, hsc]

lemma of_current {id : ScopeId} {sc : Scope} {stack : List ScopeId} (hstack : c.stack = id :: stack)
    (hsc : c.scope? id = some sc) (hkind : sc.kind = .function) (hnode : sc.node = n) :
    c.Inside n := by
  refine ⟨id, sc, ?_, hsc, hnode⟩
  have hfunction : c.scopeKind? id = some .function := by
    rw [scopeKind?, hsc, Option.map_some, hkind]
  rw [enclosing?, hstack, List.find?_cons, hfunction]
  rfl

end Inside

variable {mode : ScopeMode} {l : Location}

lemma Inside.enterBlock (h : c.Inside n) (hc : c.WellFormed) {m : NodeId}
    (hr : Runs (mode.enter .body m l) c () c1) : c1.Inside n := by
  have hr : (mode.enter .body m l).outcome c = (.ok (), c1) := hr
  rw [ScopeMode.outcome_enter, Resolve.mustReopen_body] at hr
  split at hr
  · cases hr
    exact h
  · cases hr
    exact h.openBlock hc m

/-- In the scope of a function, be it new or opened again. -/
lemma Homes.enterFunction (h : c.Homes n .function) (hmode : mode ≠ .skip)
    (hr : Runs (mode.enter .function n l) c () c1) : c1.Inside n := by
  have hr : (mode.enter .function n l).outcome c = (.ok (), c1) := hr
  rw [ScopeMode.outcome_enter, if_neg hmode] at hr
  obtain ⟨id, sc, hid, hsc, hkind, hnode⟩ := h
  split at hr
  · rw [hid] at hr
    cases hr
    exact .of_current rfl hsc hkind hnode
  · cases hr
    have hsc : (c.openScope .function n).2.scope? c.scopes.size =
        some { id := c.scopes.size, parent := c.current?, kind := .function, node := n } := by
      rw [scope?_openScope, if_pos rfl]
    exact .of_current rfl hsc rfl rfl

/-! ### What can be demanded in a body -/

variable {plan : Plan} {k : ScopeId} {ns : List NodeId}

lemma KeepsScopes.same_trans (hs : SameScopes c c1) (hk : KeepsScopes ns c1 c') :
    KeepsScopes ns c c' := by
  have hsame : KeepsScopes [] c c1 := .of_same hs
  exact hsame.trans hk

lemma KeepsScopes.trans_same (hk : KeepsScopes ns c c1) (hs : SameScopes c1 c') :
    KeepsScopes ns c c' := by
  have hsame : KeepsScopes [] c1 c' := .of_same hs
  exact (hk.trans hsame).mono (by simp)

/-- Variables can be demanded, and declare nothing then. -/
def Calm (plan : Plan) (c : Context) : Prop :=
  c.WellFormed ∧ c.Outside plan

lemma Calm.lasting (plan : Plan) : Resolve.Lasting plan (Calm plan) :=
  ⟨And.left, fun hc hl hq => ⟨hl.wellFormed, (hq hc.2).outside hc.2⟩⟩

/-- What can be demanded stays outside of bodies if the nodes in `ns` own no variables. -/
lemma Outside.grows {P : Shape → Prop} (h : c.Outside plan) (hc : c.WellFormed) (hg : Grows P c c')
    (hscope : ∀ n, n ∉ ns → c'.scopeOf? n = c.scopeOf? n)
    (hns : ∀ n q, plan.pending.get? n = some q → q.owner ∉ ns) : c'.Outside plan := by
  intro n q id hq hid hbody
  rw [hscope _ (hns n q hq)] at hid
  obtain ⟨sc, hsc⟩ : ∃ sc, c.scope? id = some sc :=
    ⟨_, Array.getElem?_eq_getElem (hc.nodeScopes _ _ hid)⟩
  have hkind : c.scopeKind? id = some sc.kind := by rw [Context.scopeKind?, hsc, Option.map_some]
  refine h n q id hq hid ?_
  rw [hkind, ← hg.scopeKind? hkind, hbody]

lemma Outside.openBlock (h : c.Outside plan) (hc : c.WellFormed)
    (hn : ∀ m q, plan.pending.get? m = some q → q.owner ≠ n) :
    (c.openScope .body n).2.Outside plan := by
  intro m q id hq hid
  have hid : c.scopeOf? q.owner = some id := by
    rw [← hid]
    exact ((Table.get?_insert _ _ _ _).trans (if_neg (hn m q hq))).symm
  rw [Context.scopeKind?, scope?_openScope, if_neg (hc.nodeScopes _ _ hid).ne]
  exact h m q id hq hid

/-- A scope that is no block does not matter, be it new or opened again. -/
lemma Outside.enter {mode : ScopeMode} {kind : ScopeKind} {l : Location} (h : c.Outside plan)
    (hkind : kind ≠ .body) (hr : Runs (mode.enter kind n l) c () c') : c'.Outside plan := by
  have hr : (mode.enter kind n l).outcome c = (.ok (), c') := hr
  rw [ScopeMode.outcome_enter] at hr
  split at hr
  · cases hr
    exact h
  · split at hr
    · split at hr
      · cases hr
        exact h
      · cases hr
    · cases hr
      intro m q id hq hid
      rw [Context.scopeKind?, scope?_openScope]
      split
      · exact fun hbody => hkind (Option.some.inj hbody)
      · next hne =>
        have hid : (c.nodeScopes.insert n c.scopes.size).get? q.owner = some id := hid
        rw [Table.get?_insert] at hid
        split at hid
        · cases hid
          exact absurd rfl hne
        · exact h m q id hq hid

end Context

/-! ### Bodies -/

namespace Resolving

variable {G : Groundwork} {plan : Plan} {f : NodeId} {ms ns : List NodeId} {s s' : Resolving}
  {E : Cause → Prop}

/-- The walk is in the body of the function `f`, before the nodes in `ns`, and what can be demanded
stays outside of bodies. -/
structure InBody (G : Groundwork) (plan : Plan) (f : NodeId) (ns : List NodeId) (s : Resolving) :
    Prop where
  known : G.r
  returns : ∃ r, G.Returns f r
  footing : Footing G s
  wellFormed : s.WellFormed
  inside : s.Inside f
  nodup : ns.Nodup
  fresh : Fresh G.vars ns s
  outside : s.Outside plan
  owners : ∀ n q, plan.pending.get? n = some q → q.owner ∉ ns

namespace InBody

variable {v : VariableDecl}

lemma ahead (h : InBody G plan f ns s) : G.frame.Ahead ns s := ⟨h.footing, h.nodup, h.fresh⟩

lemma calm (h : InBody G plan f ns s) : s.Calm plan :=
  ⟨h.wellFormed, h.outside⟩

lemma sublist (h : InBody G plan f ns s) (hsub : ms.Sublist ns) : InBody G plan f ms s :=
  { h with
    nodup := h.nodup.sublist hsub
    fresh := h.fresh.mono fun _ hm => hsub.subset hm
    owners := fun n q hq hm => h.owners n q hq (hsub.subset hm) }

/-- What comes after the nodes that the walk has been to. -/
lemma right {P : Shape → Prop} (h : InBody G plan f (ms ++ ns) s) (ha : Advances G ms s s')
    (hc : s'.WellFormed) (hg : Resolving.Grows P s s')
    (ho : s'.Outside plan) : InBody G plan f ns s' := by
  obtain ⟨hs, hnd, hfresh⟩ := h.ahead.right ha
  exact ⟨h.known, h.returns, hs, hc, h.inside.grows h.wellFormed hg, hnd, hfresh, ho,
    fun n q hq hm => h.owners n q hq (List.mem_append_right _ hm)⟩

/-- What comes after a step can be walked through next. -/
lemma onward {x : [Access] → Resolve Unit} {Q : Unit → Resolving → Prop}
    (h : InBody G plan f (ms ++ ns) s) (hx : Ensures (Leads G.vars) E x s Q)
    (hg : Within (Resolving.Grows fun _ => True) x)
    (ha : ∀ {s'}, G.frame.Ahead ms s → Runs x s () s' → Advances G ms s s')
    (hscope : ∀ s', Q () s' → ∀ n, n ∉ ms → s'.scopeOf? n = s.scopeOf? n) :
    Ensures (Leads G.vars) E x s fun _ s' => Q () s' ∧ InBody G plan f ns s' := by
  refine hx.runs.imp fun _ s' hl ⟨hr, hq⟩ => ⟨hq, ?_⟩
  have hms := h.sublist (List.sublist_append_left ms ns)
  have hgrows := hg.of_runs hr
  exact h.right (ha hms.ahead hr) hl.wellFormed hgrows
    (h.outside.grows h.wellFormed hgrows (hscope s' hq) hms.owners)

/-- A return finds the type of the function around it. -/
lemma inFunction (h : InBody G plan f ns s) : Resolve.InFunction s.toContext := by
  obtain ⟨id, sc, hid, hsc, rfl⟩ := h.inside
  obtain ⟨r, hr⟩ := h.returns
  obtain ⟨ps, hshape⟩ := h.footing.shape?_function h.known hr
  exact ⟨id, r, ps, hid, by rw [hsc]; exact hshape⟩

/-- A local variable is none of those that the program or a class declares, -/
lemma not_planned (h : InBody G plan f v.nodes s) : ∀ w ∈ G.vars, w.id = v.id → w = v := by
  intro w hw hid
  obtain ⟨x, hx, -⟩ := h.footing.declared hw List.mem_cons_self
  rw [hid] at hx
  exact absurd ((h.fresh _ List.mem_cons_self).1.symm.trans hx) (by simp)

/-- and has not been resolved before. -/
lemma waits (h : InBody G plan f v.nodes s) : s.Waits v := by
  constructor <;> intro hmem
  · obtain ⟨x, hx⟩ := h.footing.taken v.id (.inl hmem)
    exact absurd ((h.fresh _ List.mem_cons_self).1.symm.trans hx) (by simp)
  · obtain ⟨x, hx⟩ := h.footing.taken v.id (.inr hmem)
    exact absurd ((h.fresh _ List.mem_cons_self).1.symm.trans hx) (by simp)

end InBody

end Resolving

namespace Resolve

open Resolving

variable {G : Groundwork} {plan : Plan} {B : Prop} {f : NodeId} {s s' : Resolving} {k : ScopeId}
  {here : List (String × NodeId)} {ns : List NodeId} {E : Cause → Prop} {node : Node}

/-- A variable that is demanded outside of bodies declares nothing. -/
lemma answers_calm [Cause.Regular E] (hp : plan.Covers G.vars) :
    Answers plan G.vars E (demand plan) (Calm plan) := by
  refine answers_demandWithin_of_declare (Calm.lasting plan) (fun {c stack} hc hlt => ⟨?_, hc.2⟩)
    (fun n q hq w hw hid => hp.unique q.decl (hp.pending n q hq).1 w hw hid)
    (fun {n q id c c'} hq hc hid _ hquiet hkind => ?_) plan.size
  · exact (Context.Leads.op hc.1 (.setStack stack) hlt).wellFormed
  · have hsame : SameScopes { c with stack := c.around id } c' := hquiet hc.2
    rw [hsame.currentKind?, Context.currentKind?, Context.current?, head?_around] at hkind
    exact absurd hkind (hc.2 n q id hq hid)

lemma same_typeVoid (hr : Runs (ofCheck (typeVoid node)) s () s') :
    SameScopes s.toContext s'.toContext := by
  obtain ⟨c, hvoid, rfl⟩ := runs_ofCheck.mp hr
  obtain ⟨y, hset⟩ := runs_typeVoid hvoid
  exact Collect.same_setShape hset

/-- The last step of a statement. -/
lemma exact_typeVoid {vars : List VariableDecl} (hc : s.WellFormed) (node : Node)
    (ht : s.Typed ns) {Q : Resolving → Prop}
    (hq : ∀ s', SameScopes s.toContext s'.toContext → s'.Typed (node.id :: ns) → Q s') :
    Ensures (Leads vars) E (ofCheck (typeVoid node)) s fun _ s' => Q s' :=
  (ensures_typeVoid hc node ht).runs.imp fun _ s' _ hr => hq s' (same_typeVoid hr.1) hr.2

lemma exact_condition (hp : plan.Covers G.vars) (test : Expr)
    (h : InBody G plan f (test.nodes ++ ns) s) :
    Ensures (Leads G.vars) (Cause.Unless B) (condition plan test) s fun _ s' =>
      (SameScopes s.toContext s'.toContext ∧ s'.Typed test.nodes) ∧
        InBody G plan f ns s' := by
  refine h.onward (Q := fun _ s' => SameScopes s.toContext s'.toContext ∧ s'.Typed test.nodes) ?_
    (within_condition plan test) (advances_condition hp) fun _ hs n _ => hs.1.scopeOf? n
  exact (ensures_condition h.calm (answers_calm hp) test).runs.imp fun _ _ _ hr =>
    ⟨(quiet_condition plan test).of_runs hr.1 h.outside, hr.2⟩

lemma exact_returnRule (hp : plan.Covers G.vars)
    (node : Node) (value : Option Expr) (h : InBody G plan f ns s) :
    Ensures (Leads G.vars) (Cause.Unless B) (returnRule plan node value) s fun _ s' =>
      KeepsScopes [] s.toContext s'.toContext ∧ s'.Typed (Expr.nodes? value) := by
  refine (ensures_returnRule h.calm (answers_calm hp) node value (.inr h.inFunction)).runs.imp
    fun _ s' _ ⟨hr, ht⟩ => ⟨?_, ht⟩
  obtain ⟨id, sc, r, ps, -, -, -, hr⟩ := runs_returnRule hr
  rcases hr with ⟨rfl, -, rfl⟩ | ⟨e, found, s1, c1, rfl, -, he, hcheck, rfl⟩
  · exact keeps_markReturn _ id
  · have hexpr : SameScopes s.toContext s1.toContext := (quiet_expr plan e).of_runs he h.outside
    have hrest : SameScopes s1.toContext c1 := (within_checkAssignable _ _ _ _).of_runs hcheck
    exact .same_trans (hexpr.trans hrest) (keeps_markReturn c1 id)

/-- **A local variable** is refused exactly if its block has one of that name. -/
lemma exact_local (hp : plan.Covers G.vars)
    {v : VariableDecl} (h : InBody G plan f v.nodes s) (hf : s.Registers k .body here)
    (hid : v.id ∉ here.map Prod.snd)
    (hB : B → ((here ++ [(v.name.name, v.id)]).map Prod.fst).Nodup) :
    Ensures (Leads G.vars) (Cause.Unless B) (variableDecl plan (demand plan) v) s fun _ s' =>
      s'.Typed v.nodes ∧ ((here ++ [(v.name.name, v.id)]).map Prod.fst).Nodup ∧
        Opens k [] (namesOf .value [(v.name.name, v.id)]) s.toContext s'.toContext := by
  have hdeclare : ∀ c : Context, c.WellFormed → SameScopes s.toContext c →
      Ensures Context.Leads (Cause.Unless B) (Check.declare v.name.name .value v.id v.location) c
        fun _ c' => c'.Registers k .body (here ++ [(v.name.name, v.id)]) ∧
          Opens k [] (namesOf .value [(v.name.name, v.id)]) c c' :=
    fun c hc hsame => (hf.same hsame).ensures_declare hc rfl hid hB v.location
  refine (ensures_variableDecl_of_declare h.calm (answers_calm hp) h.not_planned
    fun c hl hquiet _ =>
    (hdeclare c hl.wellFormed (hquiet h.outside)).imp fun _ _ _ _ => trivial).runs.imp
    fun _ s' _ ⟨hr, ht⟩ => ⟨(ht h.waits.1 h.waits.2).2, ?_⟩
  -- Nobody has asked for a local variable before: it can not be demanded.
  rcases runs_variableDecl hr with ⟨htaken, -⟩ | ⟨-, -, s1, htype, hrest⟩
  · exact absurd htaken (by simp [h.waits.1, h.waits.2])
  have hquiet : Resolving.Along (Quiet plan) (s.begun v) s1 :=
    (within_variableType plan (quiet_demand plan) v).of_runs htype
  have hsame : SameScopes s.toContext s1.toContext := hquiet h.outside
  have htyped := ensures_variableType (E := Cause.Unless B) (s := s.begun v) h.calm
    (answers_calm hp) v
  have hc1 := (htyped.of_value htype).wellFormed
  rcases hrest with ⟨hne, -⟩ | ⟨-, c, hdecl, rfl⟩
  · exact absurd (hsame.currentKind?.trans hf.currentKind?) hne
  · obtain ⟨hregisters, ho⟩ := (hdeclare s1.toContext hc1 hsame).value _ _ hdecl
    have hold : Opens k [] noNames s.toContext s1.toContext := .of_same hsame
    exact ⟨hregisters.nodup, (hold.trans ho).mono (by simp) fun _ => by simp [noNames]⟩

/-- A block has a new scope, inside the same function. -/
lemma InBody.enterBlock (h : InBody G plan f (node.id :: ns) s) (hl : Leads G.vars s s')
    (hr : Runs (ofCheck (ScopeMode.reopen.enter .body node.id node.location)) s () s') :
    s'.toContext = (s.openScope .body node.id).2 ∧ InBody G plan f ns s' := by
  obtain ⟨c, henter, rfl⟩ := runs_ofCheck.mp hr
  obtain ⟨hnot, hnd⟩ := List.nodup_cons.mp h.nodup
  have ha := advances_enter h.footing (by simp) (h.fresh _ List.mem_cons_self).2 henter
  have hinside := h.inside.enterBlock h.wellFormed henter
  obtain rfl := runs_enter_body henter
  refine ⟨rfl, h.known, h.returns, ha.footing, hl.wellFormed, hinside, hnd, ?_, ?_, ?_⟩
  · exact (h.fresh.mono fun _ hm => List.mem_cons_of_mem _ hm).advances ha
      (List.singleton_disjoint.mpr hnot)
  · exact h.outside.openBlock h.wellFormed fun n q hq heq =>
      h.owners n q hq (heq ▸ List.mem_cons_self)
  · exact fun n q hq hm => h.owners n q hq (List.mem_cons_of_mem _ hm)

/-- What becomes of a block in which the names in `here` are declared, when statements with the
nodes `ns` add those in `es`: these are all different, and so are the names in each of the blocks
`bs` below. -/
structure Enlarges (k : ScopeId) (here es : List (String × NodeId)) (bs : List Block)
    (ns : List NodeId) (s s' : Resolving) : Prop where
  typed : s'.Typed ns
  opens : Opens k ns (namesOf .value es) s.toContext s'.toContext
  nodup : ((here ++ es).map Prod.fst).Nodup
  blocks : ∀ b ∈ bs, b.Unrepeated

/-- What is done in blocks further in adds no names. -/
lemma Enlarges.of_keeps {bs : List Block} (hf : s.Registers k .body here)
    (h : KeepsScopes ns s.toContext s'.toContext) (ht : s'.Typed ns)
    (hbs : ∀ b ∈ bs, b.Unrepeated) : Enlarges k here [] bs ns s s' :=
  ⟨ht, (h.opens hf.lt).mono (fun _ h => h) fun kind => by simp [noNames, namesOf],
    by simpa using hf.nodup, hbs⟩

mutual

/-- **A statement** in the body of a function is typed with all its parts. It ends in no name that
is taken exactly if its own name is new in the block, and no block in it repeats one. -/
lemma exact_stmt (hp : plan.Covers G.vars) :
    ∀ (t : Stmt) {s : Resolving} {k : ScopeId} {here : List (String × NodeId)},
    InBody G plan f t.nodes s → s.Registers k .body here → (∀ e ∈ here, e.2 ∉ t.nodes) →
    (B → ((here ++ t.declared).map Prod.fst).Nodup ∧ ∀ b ∈ t.blocks, b.Unrepeated) →
      Ensures (Leads G.vars) (Cause.Unless B) (stmt .reopen plan t) s fun _ s' =>
        Enlarges k here t.declared t.blocks t.nodes s s'
  | .expression node value, s, k, here, h, hf, _, _ => by
    refine (ensures_expr (answers_calm hp) value h.calm).runs.bind fun _ s1 h1 ⟨hr, hx⟩ => ?_
    have hsame : SameScopes s.toContext s1.toContext := (quiet_expr plan value).of_runs hr h.outside
    exact exact_typeVoid h1.wellFormed node hx.2 fun s' hs ht =>
      .of_keeps hf (.of_same (hsame.trans hs)) ht (by simp [Stmt.blocks])
  | .var v, s, k, here, h, hf, hids, hB => by
    have hid : v.id ∉ here.map Prod.snd := fun hm => by
      obtain ⟨e, he, heq⟩ := List.mem_map.mp hm
      exact hids e he (heq ▸ List.mem_cons_self)
    refine (exact_local hp h hf hid fun hb => (hB hb).1).within.bind
      fun _ s1 h1 ⟨ht, hnd, ho⟩ => ?_
    refine exact_typeVoid h1.wellFormed v.toNode ht fun s' hs ht =>
      ⟨fun n hn => ht n (List.mem_cons_of_mem _ hn), ?_, hnd, by simp [Stmt.blocks]⟩
    have hlast : Opens k [] noNames s1.toContext s'.toContext := .of_same hs
    exact (ho.trans hlast).mono (by simp) fun _ => by simp [noNames, Stmt.declared]
  | .ret node value, s, k, here, h, hf, _, _ => by
    refine (exact_returnRule hp node value h).bind fun _ s1 h1 ⟨hk, ht⟩ => ?_
    exact exact_typeVoid h1.wellFormed node ht fun s' hs ht =>
      .of_keeps hf ((hk.trans_same hs).mono (by simp)) ht (by simp [Stmt.blocks])
  | .branch node test yes none, s, k, here, h, hf, _, hB => by
    simp only [Stmt.blocks, List.append_nil] at hB ⊢
    have h := h.sublist (List.sublist_cons_self _ _)
    refine (exact_condition hp test h).bind fun _ s1 h1 ⟨⟨hsame, ht⟩, hin⟩ => ?_
    have hyes := hin.sublist (List.sublist_append_left _ _)
    refine (exact_block hp yes hyes fun hb => (hB hb).2).bind fun _ s2 h2 ⟨hty, hk, hbs⟩ => ?_
    have ht := (h2.typed ht).append (hty.append .nil)
    refine exact_typeVoid h2.wellFormed node ht fun s' hs ht => .of_keeps hf ?_ ht hbs
    exact (KeepsScopes.same_trans hsame (hk.trans_same hs)).mono fun n hn => by
      simp [Stmt.nodes, hn]
  | .branch node test yes (some no), s, k, here, h, hf, _, hB => by
    simp only [Stmt.blocks, List.forall_mem_append] at hB ⊢
    have h := h.sublist (List.sublist_cons_self _ _)
    refine (exact_condition hp test h).bind fun _ s1 h1 ⟨⟨hsame, ht⟩, hin⟩ => ?_
    have hyes := hin.sublist (List.sublist_append_left _ _)
    refine (hin.onward (exact_block hp yes hyes fun hb => (hB hb).2.1)
      (within_block .reopen plan yes) (fun ha hrun => (advances_block hp ha hrun).1)
      fun _ hq => hq.2.1.scopeOf).bind fun _ s2 h2 ⟨⟨hty, hk, hbs⟩, hno⟩ => ?_
    refine (exact_block hp no hno fun hb => (hB hb).2.2).bind
      fun _ s3 h3 ⟨htn, hk', hbs'⟩ => ?_
    have ht := (h3.typed (h2.typed ht)).append ((h3.typed hty).append htn)
    refine exact_typeVoid h3.wellFormed node ht fun s' hs ht =>
      .of_keeps hf ?_ ht (List.forall_mem_append.mpr ⟨hbs, hbs'⟩)
    exact (KeepsScopes.same_trans hsame ((hk.trans hk').trans_same hs)).mono fun n hn => by
      simp_all [Stmt.nodes]
  | .loop node test body, s, k, here, h, hf, _, hB => by
    have h := h.sublist (List.sublist_cons_self _ _)
    refine (exact_condition hp test h).bind fun _ s1 h1 ⟨⟨hsame, ht⟩, hin⟩ => ?_
    refine (exact_block hp body hin fun hb => (hB hb).2).bind fun _ s2 h2 ⟨htb, hk, hbs⟩ => ?_
    have ht := (h2.typed ht).append htb
    refine exact_typeVoid h2.wellFormed node ht fun s' hs ht => .of_keeps hf ?_ ht hbs
    exact (KeepsScopes.same_trans hsame (hk.trans_same hs)).mono fun n hn => by
      simp [Stmt.nodes, hn]
  | .block b, s, k, here, h, hf, _, hB => by
    refine (exact_block hp b h fun hb => (hB hb).2).bind fun _ s1 h1 ⟨ht, hk, hbs⟩ => ?_
    refine exact_typeVoid h1.wellFormed b.toNode ht fun s' hs ht => .of_keeps hf ?_ ?_ hbs
    · exact hk.trans_same hs
    · exact fun n hn => ht n (List.mem_cons_of_mem _ hn)

lemma exact_stmts (hp : plan.Covers G.vars) :
    ∀ (ts : List Stmt) {s : Resolving} {k : ScopeId} {here : List (String × NodeId)},
    InBody G plan f (Stmt.nodesAll ts) s → s.Registers k .body here →
    (∀ e ∈ here, e.2 ∉ Stmt.nodesAll ts) →
    (B → ((here ++ Stmt.declaredAll ts).map Prod.fst).Nodup ∧
      ∀ b ∈ Stmt.blocksAll ts, b.Unrepeated) →
      Ensures (Leads G.vars) (Cause.Unless B) (stmts .reopen plan ts) s fun _ s' =>
        Enlarges k here (Stmt.declaredAll ts) (Stmt.blocksAll ts) (Stmt.nodesAll ts) s s'
  | [], s, k, here, h, hf, _, _ => .pure (.refl h.wellFormed)
      (.of_keeps hf (.of_same (Std.Refl.refl _)) .nil (by simp [Stmt.blocksAll]))
  | t :: rest, s, k, here, h, hf, hids, hB => by
    have hsplit : here ++ Stmt.declaredAll (t :: rest) =
        here ++ t.declared ++ Stmt.declaredAll rest := by simp [Stmt.declaredAll]
    simp only [hsplit, Stmt.blocksAll, List.forall_mem_append] at hB
    have ht := h.sublist (List.sublist_append_left _ _)
    have hfirst := exact_stmt hp t ht hf (fun e he hm => hids e he (List.mem_append_left _ hm))
      fun hb => ⟨nodup_fst_left (hB hb).1, (hB hb).2.1⟩
    refine (h.onward hfirst (within_stmt .reopen plan t) (advances_stmt hp t)
      fun _ hq => hq.opens.scopeOf).bind fun _ s1 h1 ⟨⟨ht, ho, hnd, hbs⟩, hrest⟩ => ?_
    -- What is declared by now is declared by nodes before the rest: none of them comes again.
    have hids' : ∀ e ∈ here ++ t.declared, e.2 ∉ Stmt.nodesAll rest := by
      intro e he hm
      rcases List.mem_append.mp he with he | he
      · exact hids e he (List.mem_append_right _ hm)
      · exact (List.nodup_append'.mp h.nodup).2.2 (t.declared_mem_nodes he) hm
    refine (exact_stmts hp rest hrest (hf.next ho hnd) hids' fun hb =>
      ⟨(hB hb).1, (hB hb).2.2⟩).imp fun _ s2 h2 ⟨ht', ho', hnd', hbs'⟩ =>
        ⟨(h2.typed ht).append ht', ?_, ?_, ?_⟩
    · refine (ho.trans ho').mono (fun _ h => h) fun kind => ?_
      by_cases hkind : kind = .value <;> simp [namesOf, hkind, Stmt.declaredAll]
    · rwa [hsplit]
    · exact List.forall_mem_append.mpr ⟨hbs, hbs'⟩

/-- A block leaves the scopes around it as they are. -/
lemma exact_block (hp : plan.Covers G.vars) :
    ∀ (b : Block) {s : Resolving}, InBody G plan f b.nodes s →
    (B → ∀ b' ∈ b.blocks, b'.Unrepeated) →
      Ensures (Leads G.vars) (Cause.Unless B) (block .reopen plan b) s fun _ s' =>
        s'.Typed b.nodes ∧ KeepsScopes b.nodes s.toContext s'.toContext ∧
          ∀ b' ∈ b.blocks, b'.Unrepeated
  | ⟨node, statements⟩, s, h, hB => by
    simp only [Block.blocks, List.forall_mem_cons] at hB ⊢
    have hscope : Ensures (Leads G.vars) (Cause.Unless B)
        (inScope .reopen .body node (stmts .reopen plan statements)) s fun _ s' =>
        s'.Typed (Stmt.nodesAll statements) ∧
        KeepsScopes (node.id :: Stmt.nodesAll statements) s.toContext s'.toContext ∧
          Block.Unrepeated ⟨node, statements⟩ ∧ ∀ b ∈ Stmt.blocksAll statements, b.Unrepeated := by
      refine ensures_inScope h.wellFormed (.inr (.inl (mustReopen_body _ _)))
        (Q := fun _ s' => s'.Typed (Stmt.nodesAll statements) ∧
          Opens s.scopes.size (Stmt.nodesAll statements)
            (namesOf .value (Stmt.declaredAll statements)) (s.openScope .body node.id).2
            s'.toContext ∧
          Block.Unrepeated ⟨node, statements⟩ ∧ ∀ b ∈ Stmt.blocksAll statements, b.Unrepeated)
        (fun s1 h1 hr => ?_) fun _ s2 hl ⟨ht, ho, hq⟩ => ⟨hl.typed ht, ho.closed, hq⟩
      obtain ⟨heq, hin⟩ := InBody.enterBlock h h1 hr
      have hregisters : s1.Registers s.scopes.size .body [] := heq ▸ .openScope _ _ _
      rw [← heq]
      exact (exact_stmts hp statements hin hregisters (fun _ he => absurd he List.not_mem_nil)
        hB).imp fun _ _ _ h => ⟨h.typed, h.opens, h.nodup, h.blocks⟩
    refine hscope.bind fun _ s1 h1 ⟨ht, hk, hq⟩ => ?_
    exact exact_typeVoid h1.wellFormed node ht fun s' hs ht => ⟨ht, hk.trans_same hs, hq⟩

end

end Resolve

/-! ### Declarations -/

namespace Context

variable {c c' : Context}

lemma Grows.currentKind? {P : Shape → Prop} (h : Grows P c c') (hc : c.WellFormed) :
    c'.currentKind? = c.currentKind? := by
  have hcurrent : c'.current? = c.current? := by rw [current?, h.stack]; rfl
  rw [Context.currentKind?, Context.currentKind?, hcurrent]
  rcases hk : c.current? with _ | k
  · rfl
  · obtain ⟨sc, hsc⟩ : ∃ sc, c.scope? k = some sc :=
      ⟨_, Array.getElem?_eq_getElem (hc.current?_lt hk)⟩
    have hkind : c.scopeKind? k = some sc.kind := by rw [Context.scopeKind?, hsc, Option.map_some]
    exact (h.scopeKind? hkind).trans hkind.symm

/-- The current scope, when that of a node has been entered. -/
lemma Homes.currentKind? {mode : ScopeMode} {kind : ScopeKind} {n : NodeId} {l : Location}
    (h : c.Homes n kind) (hmode : mode ≠ .skip) (hr : Runs (mode.enter kind n l) c () c') :
    c'.currentKind? = some kind := by
  have hr : (mode.enter kind n l).outcome c = (.ok (), c') := hr
  rw [ScopeMode.outcome_enter, if_neg hmode] at hr
  obtain ⟨id, sc, hid, hsc, hkind, -⟩ := h
  split at hr
  · rw [hid] at hr
    cases hr
    change (c.scope? id).map (·.kind) = _
    rw [hsc, Option.map_some, hkind]
  · cases hr
    change ((c.openScope kind n).2.scope? c.scopes.size).map (·.kind) = _
    rw [scope?_openScope, if_pos rfl]
    rfl

end Context

namespace Resolve

/-- A class or a function has its scope. -/
def AtHome (c : Context) : Decl → Prop
  | .object o => c.Homes o.id .object
  | .function f => c.Homes f.id .function
  | .var _ | .enum _ | .foreign _ => True

lemma homes_of_homed {c : Context} {lo k id : ScopeId} {kind : ScopeKind} {n : NodeId}
    {es : SymbolKind → List (String × NodeId)} (h : c.Homed lo k kind n es id) :
    c.Homes n kind := by
  obtain ⟨sc, hview, hkind, -, hnode⟩ := h.scope
  obtain ⟨sc', hsc', rfl⟩ := Option.map_eq_some_iff.mp hview
  exact ⟨id, sc', h.scopeOf, hsc', hkind, hnode⟩

mutual

/-- Every class and every function in a declaration has its scope. -/
lemma atHome_of_scoped {c : Context} {lo : ScopeId} {d' : Decl} : ∀ {d : Decl} {k : ScopeId},
    d.Scoped c lo k → d' ∈ d.all → AtHome c d'
  | .object ⟨_, _, _, members⟩, k, h, hd' => by
    obtain ⟨id, hid, hall⟩ := h
    rcases List.mem_cons.mp hd' with rfl | hd'
    · exact homes_of_homed hid
    · exact atHome_of_scopedAll hall hd'
  | .function f, k, h, hd' => by
    cases List.mem_singleton.mp hd'
    obtain ⟨id, hid⟩ := h
    exact homes_of_homed hid
  | .var _, _, _, hd' | .enum _, _, _, hd' | .foreign _, _, _, hd' => by
    cases List.mem_singleton.mp hd'
    trivial

lemma atHome_of_scopedAll {c : Context} {lo : ScopeId} {d' : Decl} :
    ∀ {ds : List Decl} {k : ScopeId}, Decl.ScopedAll c lo k ds → d' ∈ Decl.allOf ds → AtHome c d'
  | [], _, _, hd' => absurd hd' List.not_mem_nil
  | d :: rest, k, ⟨h, hall⟩, hd' => by
    rcases List.mem_append.mp hd' with hd' | hd'
    · exact atHome_of_scoped h hd'
    · exact atHome_of_scopedAll hall hd'

end
end Resolve

namespace Resolving

open Resolve (AtHome)

variable {G : Groundwork} {plan : Plan} {ds es : List Decl} {s s' : Resolving}

/-- The walk stands before declarations, in no block and with no variable under way, and what can be
demanded stays outside of bodies. The declarations have scopes, and those of classes and functions
are not opened for anything else. -/
structure Standing (G : Groundwork) (plan : Plan) (ds : List Decl) (s : Resolving) : Prop
    extends Reached G ds s where
  known : G.r
  wellFormed : s.WellFormed
  idle : s.resolving = []
  ids : (ds.map (·.node.id)).Nodup
  houses : s.Houses ds
  returns : ∀ f, .function f ∈ ds → ∃ r, G.Returns f.id r
  homes : ∀ d ∈ ds, AtHome s.toContext d
  apart : ∀ d ∈ ds, (∀ v, d ≠ .var v) → ∀ v ∈ G.vars, d.node.id ∉ v.nodes
  outside : s.Outside plan
  owners : ∀ n q, plan.pending.get? n = some q → q.owner ∉ ds.flatMap Decl.body
  kind : s.currentKind? ≠ some .body

namespace Standing

lemma calm (h : Standing G plan ds s) : s.Calm plan :=
  ⟨h.wellFormed, h.outside⟩

lemma left (h : Standing G plan (ds ++ es) s) : Standing G plan ds s where
  toReached := h.toReached.left
  known := h.known
  wellFormed := h.wellFormed
  idle := h.idle
  ids := h.ids.sublist ((List.sublist_append_left _ _).map _)
  houses d hd := h.houses d (List.mem_append_left _ hd)
  returns f hf := h.returns f (List.mem_append_left _ hf)
  homes d hd := h.homes d (List.mem_append_left _ hd)
  apart d hd := h.apart d (List.mem_append_left _ hd)
  outside := h.outside
  owners n q hq hm := h.owners n q hq (by
    rw [List.flatMap_append]
    exact List.mem_append_left _ hm)
  kind := h.kind

/-- A declaration that is still to come has not been visited. -/
lemma notMem_visited (h : Standing G plan (ds ++ es) s) {d : Decl} (hd : d ∈ es) :
    d.node.id ∉ ds.flatMap Decl.visited := by
  intro hm
  obtain ⟨d', hd', hm⟩ := List.mem_flatMap.mp hm
  rcases List.mem_cons.mp hm with heq | hm
  · have hids := h.ids
    rw [List.map_append] at hids
    exact (List.nodup_append'.mp hids).2.2 (List.mem_map_of_mem hd') (heq ▸ List.mem_map_of_mem hd)
  · obtain ⟨x, hx⟩ := h.typed d (List.mem_append_right _ hd)
    have hbody : d.node.id ∈ (ds ++ es).flatMap Decl.body :=
      List.mem_flatMap.mpr ⟨d', List.mem_append_left _ hd', hm⟩
    exact absurd ((h.fresh _ hbody).1.symm.trans hx) (by simp)

lemma right (h : Standing G plan (ds ++ es) s) (ha : Advances G (ds.flatMap Decl.visited) s s')
    (hl : s.toContext.Leads s'.toContext) (ho : s'.Outside plan)
    (hkind : s'.currentKind? ≠ some .body) : Standing G plan es s' where
  toReached := h.toReached.right ha
  known := h.known
  wellFormed := hl.wellFormed
  idle := ha.resolving.trans h.idle
  ids := h.ids.sublist ((List.sublist_append_right _ _).map _)
  houses := hl.houses fun d hd => h.houses d (List.mem_append_right _ hd)
  returns f hf := h.returns f (List.mem_append_right _ hf)
  homes d hd := by
    have hhome := h.homes d (List.mem_append_right _ hd)
    have hapart := h.apart d (List.mem_append_right _ hd)
    have hnot := h.notMem_visited hd
    cases d with
    | object | function => exact ha.homes _ _ hnot (hapart (by simp)) hhome
    | var | enum | foreign => trivial
  apart d hd := h.apart d (List.mem_append_right _ hd)
  outside := ho
  owners n q hq hm := h.owners n q hq (by
    rw [List.flatMap_append]
    exact List.mem_append_right _ hm)
  kind := hkind

/-- Where the walk is when it has entered the scope of a function. -/
lemma enterFunction {f : FunctionDecl} (h : Standing G plan [.function f] s)
    (hc : s'.WellFormed)
    (hr : Runs (Resolve.ofCheck (ScopeMode.reopen.enter .function f.id f.location)) s () s') :
    InBody G plan f.id f.body.nodes s' := by
  obtain ⟨c, henter, rfl⟩ := Resolve.runs_ofCheck.mp hr
  have hself : Decl.function f ∈ [Decl.function f] := List.mem_singleton_self _
  have hnd : f.body.nodes.Nodup := by simpa [Decl.body] using h.nodup
  have hfresh : Fresh G.vars f.body.nodes s := by simpa [Decl.body] using h.fresh
  have hnot : f.id ∉ f.body.nodes := by
    intro hm
    obtain ⟨x, hx⟩ := h.typed _ hself
    exact absurd ((hfresh _ hm).1.symm.trans hx) (by simp)
  have ha := Resolve.advances_enter h.footing (by simp) (h.notMem_value hself) henter
  exact ⟨h.known, h.returns f hself, ha.footing, hc,
    Homes.enterFunction (h.homes _ hself) (by simp) henter, hnd,
    hfresh.advances ha (List.singleton_disjoint.mpr hnot), h.outside.enter (by simp) henter,
    fun n q hq hm => h.owners n q hq (List.mem_flatMap.mpr ⟨_, hself, hm⟩)⟩

end Standing

end Resolving

namespace Resolve

open Resolving

variable {G : Groundwork} {plan : Plan} {B : Prop} {s s' : Resolving} {ds : List Decl}

/-- The walk has been through declarations: bodies are typed and variables resolved, and no block in
a function repeats a name. -/
structure Passed (plan : Plan) (ds : List Decl) (s : Resolving) : Prop where
  outside : s.Outside plan
  typed : s.Typed (ds.flatMap Decl.body)
  resolved : ∀ v, .var v ∈ ds → v.id ∈ s.resolved
  blocks : ∀ d ∈ ds, ∀ b ∈ d.blocks, b.Unrepeated

lemma Passed.append {vars : List VariableDecl} {es : List Decl} (h : Passed plan ds s)
    (hl : Leads vars s s') (h' : Passed plan es s') : Passed plan (ds ++ es) s' where
  outside := h'.outside
  typed := by
    rw [List.flatMap_append]
    exact (hl.typed h.typed).append h'.typed
  resolved v hv := (List.mem_append.mp hv).elim (fun hv => hl.resolved _ (h.resolved v hv))
    (h'.resolved v)
  blocks := List.forall_mem_append.mpr ⟨h.blocks, h'.blocks⟩

/-- What declares no variable and has no body. -/
lemma Passed.of_outside {d : Decl} (h : s.Outside plan) (hv : ∀ v, d ≠ .var v)
    (hf : ∀ f, d ≠ .function f) : Passed plan [d] s := by
  cases d with
  | var v => exact absurd rfl (hv v)
  | function f => exact absurd rfl (hf f)
  | object | enum | foreign =>
    exact ⟨h, by simp [Decl.body, Typed], by simp, by simp [Decl.blocks]⟩

/-- A walk through declarations. -/
abbrev Passes (G : Groundwork) (plan : Plan) (B : Prop) (x : [Access] → Resolve Unit)
    (ds : List Decl) (s : Resolving) : Prop :=
  Ensures (Leads G.vars) (Cause.Unless B) x s fun _ s' => Passed plan ds s'

/-- A function is entered, and its body is in its scope. -/
lemma exact_function (hp : plan.Covers G.vars) {f : FunctionDecl}
    (h : Standing G plan [.function f] s) (hB : B → ∀ b ∈ f.body.blocks, b.Unrepeated) :
    Passes G plan B (function .reopen plan f) [.function f] s := by
  refine ensures_inScope (Q := fun _ s' => Passed plan [.function f] s') h.wellFormed
    (.inr (.inr (h.houses _ (List.mem_singleton_self _) _ rfl))) (fun s1 h1 hr => ?_)
    fun _ _ hl hq => ⟨hq.outside, hl.typed hq.typed, hq.resolved, hq.blocks⟩
  have hin := h.enterFunction h1.wellFormed hr
  refine .get_bind ((exact_block hp f.body hin hB).runs.bind
    fun _ s2 h2 ⟨hr2, ht, hk, hbs⟩ => ?_)
  have hgrows := (within_block (P := fun _ => True) .reopen plan f.body).of_runs hr2
  have hout := hin.outside.grows h1.wellFormed hgrows hk.scopeOf hin.owners
  refine (ensures_checkReturns h1.wellFormed h2 f).runs.imp fun _ s3 h3 ⟨hr3, _⟩ =>
    ⟨?_, by simpa [Decl.body] using h3.typed ht, by simp, by simpa [Decl.blocks] using hbs⟩
  obtain ⟨c3, hcheck, rfl⟩ := runs_ofCheck.mp hr3
  have hsame : SameScopes s2.toContext c3 := (within_checkReturns f _).of_runs hcheck
  exact hsame.outside hout

/-- A variable of the program or of a class declares nothing. -/
lemma exact_member (hp : plan.Covers G.vars) {v : VariableDecl} (h : Standing G plan [.var v] s) :
    Passes G plan B (variableDecl plan (demand plan) v) [.var v] s := by
  have hmem := h.vars v (List.mem_singleton_self _)
  refine (ensures_variableDecl_of_declare h.calm (answers_calm hp) (hp.unique v hmem)
    fun c _ hquiet hkind =>
    absurd ((hquiet h.outside).currentKind?.symm.trans hkind) h.kind).runs.imp
    fun _ s' hl ⟨hr, hdone⟩ =>
      ⟨?_, by simp [Decl.body, Typed], ?_, by simp [Decl.blocks]⟩
  · have hsame := quiet_variableDecl (quiet_demand plan) v h.outside h.kind
    rw [show (variableDecl plan (demand plan) v).outcome s = (.ok (), s') from hr] at hsame
    exact hsame.outside h.outside
  · simp only [List.mem_singleton, Decl.var.injEq, forall_eq]
    -- it may have been resolved on demand before
    by_cases hres : v.id ∈ s.resolved
    · exact hl.resolved _ hres
    · exact (hdone hres (by simp [h.idle])).1

mutual

/-- **Resolving a declaration** ends in no name that is taken exactly if no block in its functions
repeats one. -/
lemma exact_decl (hp : plan.Covers G.vars) :
    ∀ (d : Decl) {s : Resolving}, Standing G plan d.all s →
    (B → ∀ e ∈ d.all, ∀ b ∈ e.blocks, b.Unrepeated) →
      Passes G plan B (decl .reopen plan d) d.all s
  | .object o, _, h, hB => (exact_object hp o h hB).within
  | .function f, _, h, hB => (exact_function hp h fun hb =>
      hB hb _ (List.mem_singleton_self _)).within
  | .var v, _, h, _ => (exact_member hp h).within
  | .enum _, _, h, _ | .foreign _, _, h, _ =>
    .pure (.refl h.wellFormed) (.of_outside h.outside (by simp) (by simp))

lemma exact_object (hp : plan.Covers G.vars) :
    ∀ (o : ClassDecl) {s : Resolving}, Standing G plan (Decl.object o).all s →
    (B → ∀ e ∈ (Decl.object o).all, ∀ b ∈ e.blocks, b.Unrepeated) →
      Passes G plan B (object .reopen plan o) (Decl.object o).all s
  | ⟨node, name, base, members⟩, s, h, hB => by
    have h : Standing G plan ([.object ⟨node, name, base, members⟩] ++ Decl.allOf members) s := h
    refine ensures_inScope (Q := fun _ s' => Passed plan (Decl.allOf members) s') h.wellFormed
      (.inr (.inr (h.houses _ List.mem_cons_self _ rfl))) (fun s1 h1 hr => ?_)
      fun _ s2 hl hq => ?_
    · obtain ⟨c, henter, rfl⟩ := runs_ofCheck.mp hr
      have ha := advances_enter h.footing (fun _ => h.typed _ List.mem_cons_self)
        (h.notMem_value List.mem_cons_self) henter
      have hkind := Homes.currentKind? (h.homes _ List.mem_cons_self) (by simp) henter
      refine exact_decls hp members
        (h.right ha h1.context (h.outside.enter (by simp) henter) ?_)
        fun hb e he => hB hb e (List.mem_cons_of_mem _ he)
      exact fun hbody => by cases hkind.symm.trans hbody
    · exact (Passed.of_outside hq.outside (by simp) (by simp)).append hl
        ⟨hq.outside, hl.typed hq.typed, hq.resolved, hq.blocks⟩

lemma exact_decls (hp : plan.Covers G.vars) :
    ∀ (ds : List Decl) {s : Resolving}, Standing G plan (Decl.allOf ds) s →
    (B → ∀ e ∈ Decl.allOf ds, ∀ b ∈ e.blocks, b.Unrepeated) →
      Passes G plan B (decls .reopen plan ds) (Decl.allOf ds) s
  | [], _, h, _ => .pure (.refl h.wellFormed)
      ⟨h.outside, by simp [Decl.allOf, Typed], by simp [Decl.allOf], by simp [Decl.allOf]⟩
  | d :: rest, s, h, hB => by
    have h : Standing G plan (d.all ++ Decl.allOf rest) s := h
    refine (exact_decl hp d h.left fun hb e he =>
      hB hb e (List.mem_append_left _ he)).runs.bind fun _ s1 h1 ⟨hr, hq⟩ => ?_
    have hgrows := (within_decl (P := fun _ => True) .reopen plan d).of_runs hr
    have hrest := h.right (walked_decl hp h.left.toReached hr).advances h1.context hq.outside
      (by rw [Grows.currentKind? hgrows h.wellFormed]; exact h.kind)
    exact (exact_decls hp rest hrest fun hb e he =>
      hB hb e (List.mem_append_right _ he)).imp fun _ s2 h2 hq' => hq.append h2 hq'

end

/-! ### The second walk after the first -/

variable {p : Program}

lemma Starts.currentKind? (h : Starts p plan s) : s.currentKind? = some .program := by
  have hcurrent : s.current? = some rootScope := by
    rw [current?, h.stack]
    rfl
  exact Collect.currentKind?_of_scopeAt hcurrent h.root

/-- The walk begins in the scope of the program, and every class and function has its scope. -/
lemma Starts.standing (h : Starts p plan s) (hp : p.FullyNumbered) (hc : s.WellFormed)
    (hhouses : s.Houses p.allDecls) :
    Standing (h.groundwork hp.toNumbered) plan p.allDecls s where
  toReached := h.reached hp.toNumbered
  known := trivial
  wellFormed := hc
  idle := h.resolving
  ids := (List.nodup_cons.mp hp.ids).2
  houses := hhouses
  returns _ hf := h.returns hp.toNumbered hf
  homes _ hd := atHome_of_scopedAll h.homes hd
  apart d hd hne v hv hm := by
    have hv : .var v ∈ p.allDecls := Program.mem_variables.mp hv
    have hself : d.node.id ∈ d.signature := d.node_mem_signature
    rw [VariableDecl.nodes, ← List.cons_append] at hm
    rcases List.mem_append.mp hm with hm | hm
    · exact hp.signatures_apart hd hv (hne v) hself hm
    · exact hp.inside_notMem hv hm hd hself
  outside n q id hq hid hbody := by
    obtain ⟨-, -, howner⟩ := h.serves.pending n q hq
    rcases Program.mem_owners.mp howner with howner | ⟨o, ho, howner⟩
    · rw [howner, h.home] at hid
      cases hid
      have hkind := h.currentKind?
      rw [Context.currentKind?, current?, h.stack] at hkind
      cases hkind.symm.trans hbody
    · obtain ⟨id', sc, hid', hsc, hkind, -⟩ := atHome_of_scopedAll h.homes ho
      rw [howner, hid'] at hid
      cases hid
      rw [Context.scopeKind?, hsc, Option.map_some, hkind] at hbody
      cases hbody
  owners n q hq hm := by
    obtain ⟨-, -, howner⟩ := h.serves.pending n q hq
    obtain ⟨d, hd, hm⟩ := List.mem_flatMap.mp hm
    have hinside : q.owner ∈ d.inside := by
      cases d with
      | function f => exact hm
      | object | var | enum | foreign => cases hm
    rcases Program.mem_owners.mp howner with howner | ⟨o, ho, howner⟩
    · refine hp.root (List.mem_append_left _ (List.mem_append_right _ ?_))
      exact List.mem_flatMap.mpr ⟨d, hd, howner ▸ hinside⟩
    · exact hp.inside_notMem hd hinside ho (howner ▸ List.mem_cons_self)
  kind hbody := by cases h.currentKind?.symm.trans hbody

/-- **The second walk after the first** comes to the declarations with signatures and hierarchies
settled. -/
lemma ensures_program_of_starts {E : Cause → Prop} [Cause.Regular E] {c1 : Context}
    (vars : List VariableDecl) {Q : Context → Prop} (hcyclic : ∀ name, E (.cyclicInheritance name))
    (hp : p.FullyNumbered) (hcollect : Runs (Collect.program .fresh p) {} () c1)
    (hleave : ∀ {c : Context}, Context.Leads c (ScopeMode.reopen.leave c) → Q c →
      Q (ScopeMode.reopen.leave c))
    (hwalk : ∀ {plan : Plan} {s : Resolving}, Starts p plan s →
      SameScopes { c1 with stack := [rootScope] } s.toContext → s.WellFormed →
      s.Houses p.allDecls →
        Ensures (Leads vars) E (decls .reopen plan p.declarations) s fun _ s' =>
          Q s'.toContext) :
    Ensures Context.Leads E (program .reopen p) c1 fun _ c2 => Q c2 := by
  have hfirst := Collect.ensures_program (E := Cause.Ordinary) .empty p (.inr rfl)
  have hc1 := (hfirst.of_value hcollect).wellFormed
  obtain ⟨hroot, hhouses⟩ := hfirst.value _ _ hcollect (by simp)
  refine (Plan.ensures_addDecls p.id p.declarations hc1).runs.bind fun plan c h ⟨hplan, _⟩ => ?_
  have hscope : Ensures (Leads vars) E (walk .reopen plan p) { toContext := c } fun _ s' =>
      Q s'.toContext := by
    refine ensures_inScope (Q := fun _ s' => Q s'.toContext) h.wellFormed
      (.inr (.inr (h.steps.onward.scopeOf _ hroot))) (fun s1 h1 hr1 => ?_)
      fun _ _ hl hq => hleave hl.context hq
    have hhouses1 := h1.context.houses (h.houses hhouses)
    refine (ensures_ofCheck (ensures_signatures p.declarations h1.wellFormed (.inr hhouses1)
      False.elim).leads).runs.bind fun _ s2 h2 ⟨hr2, _⟩ => ?_
    refine (ensures_ofCheck (ensures_hierarchies hcyclic p.declarations h2.wellFormed)).runs.bind
      fun _ s3 h3 ⟨hr3, _⟩ => ?_
    obtain ⟨c3, henter, rfl⟩ := runs_ofCheck.mp hr1
    obtain ⟨c4, hsig, rfl⟩ := runs_ofCheck.mp hr2
    obtain ⟨c5, hhier, rfl⟩ := runs_ofCheck.mp hr3
    obtain ⟨rfl, rfl, hbegins⟩ :=
      begins_of_stages hp.toNumbered hcollect hplan henter hsig hhier
    obtain ⟨hstarts, hsame⟩ := hbegins.starts hp hcollect henter hsig hhier
    exact hwalk hstarts hsame h3.wellFormed (h3.context.houses (h2.context.houses hhouses1))
  exact (ensures_toCheck hscope).imp fun _ _ _ ⟨_, hq, heq⟩ => heq ▸ hq

/-- **The second walk** gives every node of a declaration a type. It ends in no name that is taken
exactly if no block repeats one. -/
lemma exact_program {c : Context} (hp : p.FullyNumbered)
    (hcollect : Runs (Collect.program .fresh p) {} () c)
    (hB : B → ∀ d ∈ p.allDecls, ∀ b ∈ d.blocks, b.Unrepeated) :
    Ensures Context.Leads (Cause.Unless B) (program .reopen p) c fun _ c' =>
      c'.Typed (p.allDecls.flatMap Decl.signature ++ p.allDecls.flatMap Decl.inside) ∧
        ∀ d ∈ p.allDecls, ∀ b ∈ d.blocks, b.Unrepeated := by
  refine ensures_program_of_starts p.variables (fun _ => ⟨rfl, fun h => by cases h⟩) hp hcollect
    (fun hl h => ⟨hl.typed h.1, h.2⟩) fun {plan s} hstarts _ hc hhouses => ?_
  refine (exact_decls (hstarts.covers hp.toNumbered) p.declarations
    (hstarts.standing hp hc hhouses) hB).imp fun _ s' hl hq => ⟨?_, hq.blocks⟩
  -- what is inside a declaration is a body, or the value of a variable
  refine .append (hl.typed hstarts.typed) fun n hn => ?_
  obtain ⟨d, hd, hn⟩ := List.mem_flatMap.mp hn
  cases d with
  | function f => exact hq.typed n (List.mem_flatMap.mpr ⟨_, hd, hn⟩)
  | var v =>
    have hvalued := hl.valued fun _ _ hmem => by
      rw [hstarts.resolved] at hmem
      exact absurd hmem List.not_mem_nil
    exact hvalued v (Program.mem_variables.mpr hd) (hq.resolved v hd) n hn
  | object | enum | foreign => cases hn

end Resolve

end Sema
