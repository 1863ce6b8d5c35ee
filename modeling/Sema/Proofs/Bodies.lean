import Sema.Proofs.Demanded
import Sema.Proofs.Redeclared

/-!
Bodies obey the rules. A function is walked through with nothing reserved and no variable under way,
so that what its expressions have met is settled. The slot of a local variable is reserved until its
statement is done, and void from then on.
-/

namespace Sema

namespace Outlook

open Sema.Action Context Resolving Resolve

variable {G : Outlook} {Q : Slot → Prop} {s s1 s' : Resolving} {x y r : Slot} {c : Context}
  {f n : NodeId} {id : ScopeId} {ms ns : List NodeId} {φ ψ : Context → Prop} {v : VariableDecl}

/-! ### Scopes -/

/-- A scope is changed, in which no names come up but those of local variables. -/
lemma Environs.modifyScope (h : G.Environs Q s) {g : Scope → Scope}
    (hg : ∀ sc, s.scope? id = some sc → (g sc).kind = sc.kind ∧ (g sc).node = sc.node ∧
      ∀ symbol ∈ (g sc).symbols, symbol ∈ sc.symbols ∨ G.Local Q s symbol) :
    G.Environs Q { s with toContext := s.modifyScope id g } := by
  have hscope : ∀ k sc', (s.modifyScope id g).scope? k = some sc' → ∃ sc, s.scope? k = some sc ∧
      sc'.kind = sc.kind ∧ sc'.node = sc.node ∧
        ∀ symbol ∈ sc'.symbols, symbol ∈ sc.symbols ∨ G.Local Q s symbol := by
    intro k sc' hk
    rw [scope?_modifyScope] at hk
    split at hk
    · next heq =>
      obtain ⟨sc, hsc, rfl⟩ := Option.map_eq_some_iff.mp hk
      exact ⟨sc, hsc, hg sc (heq ▸ hsc)⟩
    · exact ⟨sc', hk, rfl, rfl, fun _ => .inl⟩
  refine ⟨fun symbol hsym => ?_, fun k sc' hk hkind => ?_, h.owners, fun n q k hq hk hbody => ?_⟩
  · obtain ⟨k, sc', hk, hmem⟩ := hsym
    obtain ⟨sc, hsc, -, -, hold⟩ := hscope k sc' hk
    exact (hold symbol hmem).elim (fun hmem => h.symbols symbol ⟨k, sc, hsc, hmem⟩) .inr
  · obtain ⟨sc, hsc, hkind', hnode, -⟩ := hscope k sc' hk
    exact hnode ▸ h.objects k sc hsc (hkind' ▸ hkind)
  · obtain ⟨sc', hsc', hkind⟩ := Option.map_eq_some_iff.mp hbody
    obtain ⟨sc, hsc, hkind', -⟩ := hscope k sc' hsc'
    refine h.outside n q k hq hk ?_
    rw [scopeKind?, hsc, Option.map_some, ← hkind', hkind]

namespace Stage

/-- A step of the walk, with the scopes after it. -/
lemma advance (h : G.Stage Q s) (ha : Advances G.groundwork ns s { s with toContext := c })
    (he : G.Environs Q { s with toContext := c }) : G.Stage Q { s with toContext := c } :=
  h.next (.of_advances ha h fun _ => .inl) he ha.footing (ha.lettered trivial h.lettered) h.apart
    (fun _ => .inl) (fun _ _ _ h => h) fun _ _ h => h

lemma advance_same (h : G.Stage Q s) (ha : Advances G.groundwork ns s { s with toContext := c })
    (hsame : SameScopes s.toContext c) :
    G.Stage Q { s with toContext := c } ∧ G.Later Q s Q { s with toContext := c } := by
  have hl : G.Later Q s Q { s with toContext := c } := .of_advances ha h fun _ => .inl
  exact ⟨h.advance ha (h.same hsame.scopes hsame.nodeScopes hl.size_le hl.nodeType hl.high), hl⟩

lemma enter {kind : ScopeKind} {l : Location} (h : G.Stage Q s)
    (ha : Advances G.groundwork [n] s { s with toContext := c })
    (hkind : kind = .object → ∃ name, (n, Tag.type name) ∈ G.program.layout)
    (hout : c.Outside G.plan) (hr : Runs (ScopeMode.reopen.enter kind n l) s.toContext () c) :
    G.Stage Q { s with toContext := c } := by
  refine h.advance ha ?_
  have howned : ∀ m q, G.plan.pending.get? m = some q → (c.scopeOf? q.owner).isSome := fun m q hq =>
    ha.owned _ (h.owners m q hq)
  have hr : (ScopeMode.reopen.enter kind n l).outcome s.toContext = (.ok (), c) := hr
  rw [ScopeMode.outcome_enter, if_neg (by simp)] at hr
  split at hr
  · split at hr
    · cases hr
      exact ⟨h.symbols, h.objects, howned, hout⟩
    · cases hr
  · cases hr
    refine ⟨fun symbol hsym => ?_, fun id sc hsc hobject => ?_, howned, hout⟩
    · obtain ⟨id, sc, hsc, hmem⟩ := hsym
      rw [scope?_openScope] at hsc
      split at hsc
      · cases hsc
        cases hmem
      · exact h.symbols symbol ⟨id, sc, hsc, hmem⟩
    · rw [scope?_openScope] at hsc
      split at hsc
      · cases hsc
        exact hkind hobject
      · exact h.objects id sc hsc hobject

/-- A function is noted to return. -/
lemma markReturn (h : G.Stage Q s) (id : ScopeId) :
    G.Stage Q { s with toContext := s.markReturn id } ∧
      G.Later Q s Q { s with toContext := s.markReturn id } := by
  have ha : Advances G.groundwork [] s { s with toContext := s.markReturn id } :=
    .of_extends h.footing (extends_markReturn id h.footing.grounded) (by simp)
  exact ⟨h.advance ha (h.toEnvirons.modifyScope fun _ _ => ⟨rfl, rfl, fun _ => .inl⟩),
    .of_advances ha h fun _ => .inl⟩

/-- The type of a function. -/
lemma result (h : G.Stage Q s) (hf : G.groundwork.Returns f r) :
    ∃ z ps, s.nodeType? f = some z ∧ s.types.get z = .function r ps ∧ G.Settled Q s z ∧
      G.Settled Q s r := by
  obtain ⟨z, ps, hz, hget, hown⟩ := hf.shape
  obtain ⟨ps', hshape⟩ := h.footing.shape?_function trivial hf
  rw [shape?, h.footing.nodes f hf.key, hz, Option.map_some, Option.some.injEq] at hshape
  have hset : G.Settled Q s z := by
    refine h.low z (G.starts.orderly.typed f z hz).2 ?_
    rintro ⟨v, hv, _, _, hvz⟩
    refine hown v hv ⟨v.id, List.mem_cons_self, hvz, ?_⟩
    rintro name ⟨d, hd, hdz⟩
    obtain rfl := Setting.eq_of_slot hv hvz hdz
    cases G.groundwork.arranged.tag_unique hd (Setting.variable_tag hv)
  refine ⟨z, ps', (h.footing.nodes f hf.key).trans hz, hshape, hset, hset.leads r ?_⟩
  rw [hshape]
  exact List.mem_append_left _ List.mem_cons_self

end Stage

/-! ### Steps in a body -/

/-- The walk is in the body of the function `f`, before the nodes in `ns`, with no variable under
way. -/
structure InCode (G : Outlook) (f : NodeId) (ns : List NodeId) (s : Resolving) : Prop
    extends InBody G.groundwork G.plan f ns s where
  stage : G.Stage ⊥ s
  idle : s.resolving = []

namespace InCode

lemma sub (h : G.InCode f ns s) (hnd : ms.Nodup) (hsub : ∀ n ∈ ms, n ∈ ns) : G.InCode f ms s :=
  { h with
    nodup := hnd
    fresh := h.fresh.mono hsub
    owners := fun n q hq hm => h.owners n q hq (hsub _ hm) }

lemma left (h : G.InCode f (ms ++ ns) s) : G.InCode f ms s :=
  h.sub (List.nodup_append'.mp h.nodup).1 fun _ => List.mem_append_left _

lemma perm (h : G.InCode f ns s) (hp : ms.Perm ns) : G.InCode f ms s :=
  h.sub (hp.nodup_iff.mpr h.nodup) fun _ hm => hp.subset hm

lemma right {P : Shape → Prop} (h : G.InCode f (ms ++ ns) s) (ha : Advances G.groundwork ms s s')
    (hc : s'.WellFormed) (hg : Resolving.Grows P s s') (hs : G.Stage ⊥ s') :
    G.InCode f ns s' :=
  { h.toInBody.right ha hc hg hs.outside with
    stage := hs
    idle := ha.resolving.trans h.idle }

/-- An expression is resolved. -/
lemma walked {e : Expr} (h : G.InCode f e.nodes s)
    (hr : Runs (expr G.plan (demand G.plan) e) s x s') : G.Walked ⊥ s [e] [x] s' :=
  walked_expr (answers_demandWithin G.plan.size) ⟨h.stage, h.fresh, h.nodup,
    G.plan.card_waiting_le_size s, fun v _ _ _ u _ hm => by simp [h.idle] at hm⟩ hr

/-- A block has a scope of its own. -/
lemma enterBlock {l : Location} (h : G.InCode f (n :: ns) s)
    (hr : Runs (ScopeMode.reopen.enter .body n l) s.toContext () c) :
    G.InCode f (n :: ns) { s with toContext := c } := by
  have ha := advances_enter h.footing (by simp) (h.fresh _ List.mem_cons_self).2 hr
  obtain ⟨-, hnodes, -⟩ := ScopeMode.runs_enter hr
  have hl := (ScopeMode.ensures_enter (E := Cause.Ordinary) h.wellFormed
    (.inr (.inl (mustReopen_body _ _)))).of_value hr
  have hout : c.Outside G.plan := by
    rw [runs_enter_body hr]
    exact h.stage.outside.openBlock h.wellFormed fun m q hq heq =>
      h.owners m q hq (heq ▸ List.mem_cons_self)
  exact {
    known := h.known
    returns := h.returns
    footing := ha.footing
    wellFormed := hl.wellFormed
    inside := h.inside.enterBlock h.wellFormed hr
    nodup := h.nodup
    fresh := fun m hm => ⟨by rw [nodeType?, hnodes]; exact (h.fresh m hm).1, (h.fresh m hm).2⟩
    outside := hout
    stage := h.stage.enter ha (by simp) hout hr
    idle := h.idle
    owners := h.owners }

end InCode

/-- A step through the nodes in `ns` of a body, after which `φ` is assured. -/
structure Obeys {α : Type} (G : Outlook) (f : NodeId) (x : Resolve α) (ns : List NodeId)
    (φ : Context → Prop) : Prop where
  run : ∀ {ms s a s'}, G.InCode f (ns ++ ms) s → Runs x s a s' →
    G.InCode f ms s' ∧ G.Later ⊥ s ⊥ s' ∧ G.Assures ⊥ s' (f :: ns) φ

namespace Obeys

variable {α β : Type} {x : Resolve α}

lemma of_runs {x : [Access] → Resolve α} {R : α → Resolving → Prop}
    (hx : ∀ {s}, G.InCode f ns s →
      Ensures (Leads []) (fun cause => cause.isCyclic = false) x s R)
    (hg : Within (Resolving.Grows fun _ => True) x)
    (ha : ∀ {s a s'}, G.groundwork.frame.Ahead ns s → Runs x s a s' → Advances G.groundwork ns s s')
    (h : ∀ {s a s'}, G.InCode f ns s → Runs x s a s' →
      G.Stage ⊥ s' ∧ G.Assures ⊥ s' (f :: ns) φ) : G.Obeys f x ns φ := by
  refine ⟨fun hin hr => ?_⟩
  obtain ⟨hs, hφ⟩ := h hin.left hr
  have had := ha hin.left.ahead hr
  exact ⟨hin.right had ((hx hin.left).of_value hr).wellFormed (hg.of_runs hr) hs,
    .of_advances had hin.stage fun _ => .inl, hφ⟩

lemma imp (h : G.Obeys f x ns φ) (himp : ∀ c, φ c → ψ c) (hp : ms.Perm ns) : G.Obeys f x ms ψ := by
  refine ⟨fun hin hr => ?_⟩
  obtain ⟨h', hl, hφ⟩ := h.run (hin.perm (hp.append_right _).symm) hr
  exact ⟨h', hl, (hφ.imp himp).mono fun n hn => (hp.cons f).symm.subset hn⟩

lemma seq {y : α → Resolve β} (hx : G.Obeys f x ns φ) (hy : ∀ a, G.Obeys f (y a) ms ψ) :
    G.Obeys f (x >>= y) (ns ++ ms) fun c => φ c ∧ ψ c := by
  refine ⟨fun h hr => ?_⟩
  rw [List.append_assoc] at h
  obtain ⟨a, s1, hrx, hry⟩ := runs_bind.mp hr
  obtain ⟨h1, hl1, hφ⟩ := hx.run h hrx
  obtain ⟨h2, hl2, hψ⟩ := (hy a).run h1 hry
  refine ⟨h2, hl1.trans hl2, fun Q F hF hc => ⟨hφ.later hl2 Q F hF fun n hn => hc n ?_,
    hψ Q F hF fun n hn => hc n ?_⟩⟩
  · exact List.cons_subset_cons f (List.subset_append_left _ _) hn
  · exact List.cons_subset_cons f (List.subset_append_right _ _) hn

end Obeys

/-! ### Expressions and conditions -/

variable {node : Node}

lemma obeys_expr (e : Expr) :
    G.Obeys f (expr G.plan (demand G.plan) e) e.nodes fun c => e.Sound c :=
  .of_runs (fun h => ensures_expr answers_intact e h.wellFormed)
    (within_expr G.plan (within_demand G.plan) e)
    (footprint_expr (advances_demand G.covers)) fun h hr => by
      obtain ⟨hs, hk⟩ := (h.walked hr).known
      exact ⟨hs, hk.obeys.mono fun _ => List.mem_cons_of_mem _⟩

/-- The node of a statement. -/
lemma obeys_typeVoid (node : Node) :
    G.Obeys f (ofCheck (typeVoid node)) [node.id] fun _ => True := by
  refine .of_runs (fun h => ensures_typeVoid h.wellFormed node .nil)
    (uniform_typeVoid (uniform_grows G.plan) node) (fun {s _ s'} ha hr => ?_)
    fun {s _ s'} h hr => ?_
  · obtain ⟨c, hvoid, rfl⟩ := runs_ofCheck.mp hr
    exact (advances_typeVoid ha (.refl ha.sound) hvoid).1
  · obtain ⟨c, hvoid, rfl⟩ := runs_ofCheck.mp hr
    obtain ⟨y, hset⟩ := runs_typeVoid hvoid
    obtain ⟨hs, -⟩ := h.stage.store h.fresh (.setShape (h.fresh _ List.mem_cons_self).1 hset)
      (.leaf rfl rfl)
    exact ⟨hs, fun _ _ _ _ => trivial⟩

lemma obeys_condition (e : Expr) :
    G.Obeys f (condition G.plan e) e.nodes fun c =>
      e.Sound c ∧ c.shape? e.node.id = some .boolean := by
  refine .of_runs (fun h => ensures_condition h.wellFormed answers_intact e)
    (within_condition G.plan e) (advances_condition G.covers) fun h hr => ?_
  obtain ⟨found, he, hbool⟩ := runs_condition hr
  obtain ⟨hs, hk⟩ := (h.walked he).known
  refine ⟨hs, fun Q F hF hc => ?_⟩
  have hc : ∀ n ∈ e.nodes, F.toContext.Complete n := fun n hn => hc n (List.mem_cons_of_mem _ hn)
  refine ⟨hk.obeys Q F hF hc, ?_⟩
  have hcomplete := hF.complete hk.node hk.settled (hc _ e.node_mem_nodes)
  have hform := (hF.alike hk.settled).inv (.inl trivial)
  rw [Shape.isBoolean_iff.mp (hbool.resolve_left (by simp [hcomplete]))] at hform
  rw [shape?, hF.nodeType _ found hk.node, Option.map_some, show F.types.get found = _ from hform]

/-- **A return** fits the result of its function. -/
lemma obeys_returnRule (hf : G.groundwork.Returns f r) (value : Option Expr) :
    G.Obeys f (returnRule G.plan node value) (Expr.nodes? value) fun c =>
      (Stmt.ret node value).Lawful c r ∧ ∀ e, value = some e → e.Sound c := by
  refine .of_runs (fun h => ensures_returnRule h.wellFormed answers_intact node value
    (.inr h.inFunction))
    (within_returnRule G.plan node value)
    (fun ha => (follows_returnRule (Rules.conforms G.covers) ha).value _ _)
    fun {s _ s'} h hr => ?_
  obtain ⟨z, ps, hz, hget, hzs, hrs⟩ := h.stage.result hf
  obtain ⟨id, sc, r', ps', hid, hsc, hshape, hr⟩ := runs_returnRule hr
  obtain ⟨id', sc', hid', hsc', hnode⟩ := h.inside
  cases hid.symm.trans hid'
  cases hsc.symm.trans hsc'
  rw [hnode, shape?, hz, Option.map_some, hget] at hshape
  cases hshape
  rcases hr with ⟨rfl, hvoid, rfl⟩ | ⟨e, found, s1, c1, rfl, hvoid, he, hcheck, rfl⟩
  · obtain ⟨hs', hl'⟩ := h.stage.markReturn id
    refine ⟨hs', Assures.later (fun Q F hF _ => ⟨?_, by simp⟩) hl'⟩
    have hkept := (hF.alike hrs).isVoid
    rw [hvoid] at hkept
    exact Shape.isVoid_iff.mp hkept
  · have ha := footprint_expr (advances_demand G.covers) h.ahead he
    obtain ⟨ha', hs1, hk, hfits, -⟩ := checked (h.walked he) ha h.stage.lettered
      (fun P hnew hsP => (h.stage.backed ha hrs hnew hsP).backed) hcheck
    have hl : G.Later ⊥ s ⊥ { s1 with toContext := c1 } := .of_advances ha' h.stage fun _ => .inl
    have hmeets : G.Meets ⊥ { s1 with toContext := c1 } r e found :=
      ⟨hk, hl.settled r hrs, hfits⟩
    obtain ⟨hs', hl'⟩ := hs1.markReturn id
    refine ⟨hs', Assures.later (fun Q F hF hc => ?_) hl'⟩
    obtain ⟨hc, hce⟩ := List.forall_mem_cons.mp hc
    -- the result is complete, as a part of the type of the function
    have hcomplete := (hl.trans hF).complete hz hzs hc
    rw [TypeStore.isIncomplete_eq_false_iff, TypeStore.components, hget] at hcomplete
    refine ⟨⟨fun hv => ?_, found, hmeets.lawful hF hce
      ((hl.isIncomplete hrs).trans (hcomplete.2 r List.mem_cons_self))⟩, ?_⟩
    · have hkept := ((hl.trans hF).alike hrs).isVoid
      rw [hv, hvoid] at hkept
      cases hkept
    · rintro _ ⟨⟩
      exact hk.obeys Q F hF hce

/-! ### Local variables -/

/-- **A local variable is put under way.** -/
lemma Stage.beginLocal (h : G.Stage ⊥ s) (hne : ∀ w ∈ G.program.variables, w.id ≠ v.id)
    (hv : s.nodeType? v.id = none) (hw : s.Waits v) (hsame : SameScopes s.toContext c)
    (hp : Prepared G.groundwork v s y c) :
    G.Stage (· = y) ({ s with toContext := c }.begun v) := by
  obtain ⟨hle, hlt, hfree⟩ := hp.new h.footing hv
  have hl : G.Later ⊥ s (· = y) ({ s with toContext := c }.begun v) :=
    (Later.of_advances hp.advances h fun x (hx : x = y) => .inr (hx ▸ ⟨hle, hfree⟩)).trans
      (.of_kept le_rfl (fun _ _ h => h) (fun w hw _ hpends =>
        ⟨fun hm => (List.mem_cons.mp hm).elim (hne w hw) hpends.1,
          hpends.2.imp_right fun hn hm => hn (List.mem_cons_of_mem _ hm)⟩)
        (fun _ _ h => h) fun _ _ => rfl)
  exact h.next hl (h.same hsame.scopes hsame.nodeScopes hl.size_le hl.nodeType hl.high)
    (footing_begun hp.advances.footing) (hp.advances.lettered trivial h.lettered)
    (fun n hn => (List.mem_cons.mp hn).elim (· ▸ hw.1) (h.apart n))
    (fun x hx => .inr (hx ▸ ⟨hle, hlt⟩))
    (fun w hw _ hpends => ⟨hpends.1, hpends.2.imp_right fun hn hm =>
      (List.mem_cons.mp hm).elim (hne w hw) hn⟩) fun _ _ h => h

/-- **A local variable is done**: it is void, and may have been declared. -/
lemma Stage.endLocal {c' : Context} (h : G.Stage Q s)
    (hne : ∀ w ∈ G.program.variables, w.id ≠ v.id) (hidle : s.resolving = [v.id]) (hy : Q y)
    (hnode : s.nodeType? v.id = some y) (hw : Writes Q s.toContext c)
    (hvoid : c.types.get y = .void)
    (hc : c' = c ∨ ∃ id sc sc' symbol unique, c.scope? id = some sc ∧
      sc.insert? symbol unique = some sc' ∧ symbol.declaration = v.id ∧
        c' = c.modifyScope id fun _ => sc')
    (hf : Footing G.groundwork (Resolve.settle v.id { s with toContext := c' }))
    (hlettered : Lettered G.groundwork (Resolve.settle v.id { s with toContext := c' })) :
    G.Stage ⊥ (Resolve.settle v.id { s with toContext := c' }) ∧
      G.Later Q s ⊥ (Resolve.settle v.id { s with toContext := c' }) := by
  have hpends : ∀ c w, w ∈ G.program.variables →
      (G.Pends (Resolve.settle v.id { s with toContext := c }) w ↔ G.Pends s w) := by
    intro c w hw
    simp [Pends, Resolve.settle, hidle, hne w hw]
  have hlater : ∀ c', c'.types = c.types → c'.nodeTypes = c.nodeTypes →
      G.Later Q s ⊥ (Resolve.settle v.id { s with toContext := c' }) := by
    intro c' htypes hnodes
    refine .of_kept (hw.size.ge.trans_eq (congrArg _ htypes.symm)) (fun n x hx => ?_)
      (fun w hw _ => (hpends c' w hw).mp) (fun _ _ h => h.elim) fun x hx => ?_
    · rw [nodeType?,
        show (Resolve.settle v.id { s with toContext := c' }).nodeTypes = _ from hnodes]
      exact (hw.nodeType? n).trans hx
    · exact (congrArg (TypeStore.get · x) htypes).trans (hw.get x hx.free)
  have he : G.Environs ⊥ (Resolve.settle v.id { s with toContext := c }) :=
    h.same (by rw [hw.rest]; rfl) (by rw [hw.rest]; rfl) (hlater c rfl rfl).size_le
      (hlater c rfl rfl).nodeType (hlater c rfl rfl).high
  obtain ⟨he, htypes, hnodes⟩ : G.Environs ⊥ (Resolve.settle v.id { s with toContext := c' }) ∧
      c'.types = c.types ∧ c'.nodeTypes = c.nodeTypes := by
    rcases hc with rfl | ⟨id, sc, sc', symbol, unique, hsc, hinsert, hdecl, rfl⟩
    · exact ⟨he, rfl, rfl⟩
    · obtain ⟨hkind, hnode', hmem⟩ := Scope.insert?_cases hinsert
      refine ⟨he.modifyScope fun sc1 hsc1 => ?_, rfl, rfl⟩
      cases hsc.symm.trans hsc1
      refine ⟨hkind, hnode', fun t ht => (hmem t ht).imp_right ?_⟩
      rintro rfl
      exact ⟨y, by rw [hdecl]; exact (hw.nodeType? _).trans hnode, (h.reserved y hy).1,
        hw.size ▸ (h.reserved y hy).2, fun h => h, hvoid⟩
  exact ⟨h.next (hlater c' htypes hnodes) he hf hlettered (by simp [Resolve.settle, hidle])
    (fun _ h => h.elim) (fun w hw _ => (hpends c' w hw).mpr) fun w hw hm =>
      (List.mem_cons.mp hm).resolve_left (hne w hw), hlater c' htypes hnodes⟩

/-- What a local variable is resolved to, and what stays reserved until it is done. -/
lemma walked_local {s2 : Resolving} (h : G.InCode f v.nodes s)
    (hne : ∀ w ∈ G.program.variables, w.id ≠ v.id)
    (hr : Runs (variableType G.plan (demand G.plan) v) (s.begun v) () s2) :
    ∃ (Q : Slot → Prop) (t : Resolving) (c : Context) (y : Slot), G.Stage Q t ∧ Q y ∧
      t.resolving = [v.id] ∧ t.nodeType? v.id = some y ∧ Writes Q t.toContext c ∧
      s2 = { t with toContext := c } ∧
      ∀ e, v.value = some e → G.Assures Q t e.nodes fun c => e.Sound c := by
  obtain ⟨y, c, hprepares, hr⟩ := runs_variableType hr
  have hp : Prepared G.groundwork v s y c := prepared h.footing h.nodup
    (.inr (h.fresh.mono fun _ hm => List.mem_append_left _ hm)) hprepares
  have hs := h.stage.beginLocal hne (h.fresh _ List.mem_cons_self).1 h.waits
    (same_prepares hprepares) hp
  have hidle : ({ s with toContext := c }.begun v).resolving = [v.id] := by simp [begun, h.idle]
  rcases hr with ⟨hvalue, -, rfl⟩ | ⟨e, found, t, hvalue, he, hr⟩
  · exact ⟨_, _, c, y, hs, rfl, hidle, hp.nodeType, .refl _, rfl, by simp [hvalue]⟩
  · have hahead : G.groundwork.frame.Ahead ((v.id :: TypeExpr.nodes? v.type) ++ e.nodes) s := by
      have ha := h.ahead
      rwa [VariableDecl.nodes, hvalue] at ha
    have hdone := hahead.right hp.advances
    have hawaits : G.Awaits G.plan.size (· = y) e.nodes e.names
        ({ s with toContext := c }.begun v) :=
      ⟨hs, fun n hn => ⟨(hdone.fresh n hn).1, fun w hw hwaits =>
        (hdone.fresh n hn).2 w hw (waits_begun.mp hwaits)⟩, hdone.nodup,
        G.plan.card_waiting_le_size _, fun w _ _ _ u hu hm => by
          rw [hidle] at hm
          exact absurd (List.mem_singleton.mp hm) (hne u hu)⟩
    have ha := footprint_expr (advances_demand G.covers) hawaits.ahead he
    obtain ⟨P, -, hsP, hheld⟩ := walked_expr (answers_demandWithin G.plan.size) hawaits he
    obtain ⟨hheld, -⟩ := List.forall₂_cons.mp hheld
    obtain ⟨c2, hw, rfl⟩ : ∃ c2, Writes ((· = y) ⊔ P) t.toContext c2 ∧
        { t with toContext := c2 } = s2 := by
      rcases hr with ⟨-, c2, hcheck, heq⟩ | ⟨-, heq⟩
      · refine ⟨c2, ?_, heq⟩
        rcases (runs_checkAssignable hcheck).1 with ⟨-, -, hinfer⟩ | ⟨-, rfl⟩
        · exact (hheld.ready.writes (fun x hx hp => hx.free (.inr hp)) hinfer).mono fun _ => .inr
        · exact .refl _
      · exact ⟨_, .assign (.inl rfl) found, heq⟩
    refine ⟨_, t, c2, y, hsP, .inl rfl, ha.resolving.trans hidle,
      ha.nodeType _ y hp.nodeType, hw, rfl,
      fun e' he' => ?_⟩
    cases hvalue.symm.trans he'
    exact hheld.obeys

lemma obeys_variable (v : VariableDecl) :
    G.Obeys f (stmt .reopen G.plan (.var v)) v.nodes fun c =>
      ∀ e, v.value = some e → e.Sound c := by
  refine .of_runs (fun h => intact_stmt (.var v) h.wellFormed)
    (within_stmt .reopen G.plan (.var v))
    (advances_stmt G.covers (.var v)) fun {s _ s'} h hr => ?_
  have hadv : Advances G.groundwork v.nodes s s' := advances_stmt G.covers (.var v) h.ahead hr
  have hlettered := hadv.lettered trivial h.stage.lettered
  have hne : ∀ w ∈ G.program.variables, w.id ≠ v.id := fun w hw heq => by
    obtain ⟨x, hx, -⟩ := h.footing.declared hw List.mem_cons_self
    rw [heq, (h.fresh _ List.mem_cons_self).1] at hx
    cases hx
  simp only [stmt, runs_bind, runs_within, runs_lift] at hr
  obtain ⟨_, s1, hv, c', hvoid, rfl⟩ := hr
  obtain ⟨z, hset⟩ := runs_typeVoid hvoid
  rcases runs_variableDecl hv with ⟨htaken, -⟩ | ⟨-, -, s2, htype, hrest⟩
  · exact absurd htaken (by simp [h.waits.1, h.waits.2])
  obtain ⟨Q, t, c, y, hs, hy, hidle, hnode, hw, rfl, hsound⟩ := walked_local h hne htype
  have hnode' : c.nodeType? v.id = some y := (hw.nodeType? _).trans hnode
  have hvoid' : (c.types.set y .void).get y = .void :=
    (TypeStore.get_set _ _ _ _ (hw.size ▸ (hs.reserved y hy).2)).trans (if_pos rfl)
  have hend : ∀ {s'}, G.Stage ⊥ s' ∧ G.Later Q t ⊥ s' → G.Stage ⊥ s' ∧
      G.Assures ⊥ s' (f :: v.nodes) fun c => ∀ e, v.value = some e → e.Sound c := by
    rintro s' ⟨hs', hl'⟩
    refine ⟨hs', fun Q' F hF hc e he => (hsound e he).later hl' Q' F hF fun n hn => hc n ?_⟩
    simp [VariableDecl.nodes, he, Expr.nodes?, hn]
  rcases hrest with ⟨-, rfl⟩ | ⟨-, c1, hdecl, rfl⟩
  · have hset : c.setShape v.id .void = (z, c') := hset
    rw [setShape_of_some hnode'] at hset
    cases hset
    exact hend (hs.endLocal hne hidle hy hnode (hw.trans (.set hy _)) hvoid' (.inl rfl) hadv.footing
      hlettered)
  · obtain ⟨id, sc, sc', unique, -, hsc, hinsert, rfl⟩ := Check.runs_declare hdecl
    have hset : (c.modifyScope id fun _ => sc').setShape v.id .void = (z, c') := hset
    rw [setShape_of_some (c := c.modifyScope id fun _ => sc') hnode'] at hset
    cases hset
    exact hend (hs.endLocal hne hidle hy hnode (hw.trans (.set hy _)) hvoid'
      (.inr ⟨id, sc, sc', _, unique, hsc, hinsert, rfl, rfl⟩) hadv.footing hlettered)

/-! ### Statements -/

/-- An expression that may be missing. -/
lemma sound_value {value : Option Expr} (h : ∀ e, value = some e → e.Sound c) :
    ∀ y ∈ value.toList.map Piece.expression, y.Sound c r := by
  rw [List.forall_mem_map]
  exact fun e he => h e (Option.mem_toList.mp he) r

lemma perm_last {α : Type} (a : α) (l : List α) : (a :: l).Perm (l ++ [a]) :=
  (List.perm_append_singleton a l).symm

mutual

/-- **Statements obey the rules.** -/
lemma obeys_stmt (hf : G.groundwork.Returns f r) : ∀ t : Stmt,
    G.Obeys f (stmt .reopen G.plan t) t.nodes fun c => (Piece.statement t).Sound c r
  | .expression node value => ((obeys_expr value).seq fun _ => obeys_typeVoid node).imp
      (fun c h => Piece.sound_iff.mpr ⟨trivial, by simpa [Piece.children] using h.1 r⟩)
      (perm_last _ _)
  | .var v => (obeys_variable v).imp (fun c h => Piece.sound_iff.mpr ⟨trivial, by
      simp only [Piece.children, List.mem_singleton, forall_eq]
      refine Piece.sound_iff.mpr
        ⟨trivial, List.forall_mem_append.mpr ⟨fun y hy => ?_, sound_value h⟩⟩
      obtain ⟨t, -, rfl⟩ := List.mem_map.mp hy
      exact Piece.sound_typeExpr t⟩) (.refl _)
  | .ret node value => ((obeys_returnRule hf value).seq fun _ => obeys_typeVoid node).imp
      (fun c h => Piece.sound_iff.mpr ⟨h.1.1, sound_value h.1.2⟩) (perm_last _ _)
  | .branch node test yes none => ((obeys_condition test).seq fun _ =>
      (obeys_block hf yes).seq fun _ => obeys_typeVoid node).imp
      (fun c h => Piece.sound_iff.mpr ⟨h.1.2, by
        simpa [Piece.children] using ⟨h.1.1 r, h.2.1⟩⟩)
      (by simpa [Stmt.nodes] using perm_last node.id (test.nodes ++ yes.nodes))
  | .branch node test yes (some no) => ((obeys_condition test).seq fun _ =>
      (obeys_block hf yes).seq fun _ => (obeys_block hf no).seq fun _ => obeys_typeVoid node).imp
      (fun c h => Piece.sound_iff.mpr ⟨h.1.2, by
        simpa [Piece.children] using ⟨h.1.1 r, h.2.1, h.2.2.1⟩⟩)
      (by simpa [Stmt.nodes] using perm_last node.id (test.nodes ++ (yes.nodes ++ no.nodes)))
  | .loop node test body => ((obeys_condition test).seq fun _ =>
      (obeys_block hf body).seq fun _ => obeys_typeVoid node).imp
      (fun c h => Piece.sound_iff.mpr ⟨h.1.2, by
        simpa [Piece.children] using ⟨h.1.1 r, h.2.1⟩⟩)
      (by simpa [Stmt.nodes] using perm_last node.id (test.nodes ++ body.nodes))
  | .block b => by
    refine .of_runs (fun h => intact_stmt (.block b) h.wellFormed)
      (within_stmt .reopen G.plan (.block b))
      (advances_stmt G.covers (.block b)) fun {s _ s'} h hr => ?_
    simp only [stmt, runs_bind, runs_lift] at hr
    obtain ⟨_, s1, hb, c, hvoid, rfl⟩ := hr
    have h : G.InCode f (b.nodes ++ []) s := by rwa [List.append_nil]
    obtain ⟨h1, -, hobeys⟩ := (obeys_block hf b).run h hb
    obtain ⟨ha, hnode⟩ := advances_block G.covers h.left.ahead hb
    have ha := advances_typeVoid_again ha.footing hnode hvoid
    obtain ⟨y, hset⟩ := runs_typeVoid hvoid
    obtain ⟨hs, hl⟩ := h1.stage.advance_same ha (Collect.same_setShape hset)
    exact ⟨hs, (hobeys.later hl).imp fun c h => Piece.sound_iff.mpr ⟨trivial, by
      simpa [Piece.children] using h⟩⟩

lemma obeys_stmts (hf : G.groundwork.Returns f r) : ∀ ts : List Stmt,
    G.Obeys f (stmts .reopen G.plan ts) (Stmt.nodesAll ts) fun c =>
      ∀ t ∈ ts, (Piece.statement t).Sound c r
  | [] => ⟨fun h hr => by
      simp only [stmts, runs_pure] at hr
      obtain ⟨-, rfl⟩ := hr
      exact ⟨h, .refl, fun _ _ _ _ => by simp⟩⟩
  | t :: rest => ((obeys_stmt hf t).seq fun _ => obeys_stmts hf rest).imp
      (fun c h => List.forall_mem_cons.mpr h) (.refl _)

lemma obeys_block (hf : G.groundwork.Returns f r) : ∀ b : Block,
    G.Obeys f (block .reopen G.plan b) b.nodes fun c => (Piece.block b).Sound c r
  | ⟨node, statements⟩ => by
    refine .of_runs (fun h => intact_block _ h.wellFormed)
      (within_block .reopen G.plan _)
      (fun ha hr => (advances_block G.covers ha hr).1) fun {s _ s'} h hr => ?_
    simp only [block, runs_bind, runs_lift] at hr
    obtain ⟨_, s1, hscope, c, hvoid, rfl⟩ := hr
    obtain ⟨c1, s2, henter, hbody, rfl⟩ := runs_inScope hscope
    have h : G.InCode f (node.id :: Stmt.nodesAll statements) s := h
    obtain ⟨h2, -, hobeys⟩ := (obeys_stmts hf statements).run
      ((h.enterBlock henter).perm (perm_last _ _).symm) hbody
    obtain ⟨y, hset⟩ := runs_typeVoid hvoid
    obtain ⟨hs3, hl3⟩ := h2.stage.restack s2.stack.tail
    obtain ⟨hs4, hl4, -⟩ := hs3.store (n := node.id) h2.fresh
      (.setShape (h2.fresh _ List.mem_cons_self).1 hset) (.leaf rfl rfl)
    refine ⟨hs4, ((hobeys.later (hl3.trans hl4)).mono fun n hn => ?_).imp fun c h =>
      Piece.sound_iff.mpr ⟨trivial, by simpa [Piece.children] using h⟩⟩
    exact List.cons_subset_cons f (List.subset_cons_self _ _) hn

end

/-! ### Declarations -/

/-- What is assured of the functions among declarations. -/
def Upholds (G : Outlook) (ds : List Decl) (s : Resolving) : Prop :=
  ∀ f, .function f ∈ ds → ∀ r, G.groundwork.Returns f.id r →
    G.Assures ⊥ s (f.id :: f.body.nodes) fun c => (Piece.block f.body).Sound c r

lemma Upholds.later {ds : List Decl} (h : G.Upholds ds s) (hl : G.Later ⊥ s ⊥ s') :
    G.Upholds ds s' :=
  fun f hm r hr => (h f hm r hr).later hl

/-- The scope of a declaration is entered. -/
lemma leads_enter {ds : List Decl} {d : Decl} {kind : ScopeKind} {l : Location}
    (h : Standing G.groundwork G.plan ds s) (hd : d ∈ ds) (hn : d.home? = some n)
    (hr : Runs (ScopeMode.reopen.enter kind n l) s.toContext () c) : s.toContext.Leads c :=
  (ScopeMode.ensures_enter (E := Cause.Ordinary) h.wellFormed
    (.inr (.inr (h.houses d hd n hn)))).of_value hr

lemma upholds_function {g : FunctionDecl} (h : Standing G.groundwork G.plan [.function g] s)
    (hs : G.Stage ⊥ s) (hr : Runs (function .reopen G.plan g) s () s') :
    G.Stage ⊥ s' ∧ G.Upholds [.function g] s' := by
  have hself : Decl.function g ∈ [Decl.function g] := List.mem_singleton_self _
  obtain ⟨c1, s2, henter, hbody, rfl⟩ := runs_inScope hr
  simp only [runs_bind, runs_get, runs_lift] at hbody
  obtain ⟨_, _, ⟨rfl, rfl⟩, _, s3, hblock, c, hreturns, rfl⟩ := hbody
  obtain rfl := runs_checkReturns hreturns
  have hin := h.enterFunction (leads_enter h hself rfl henter).wellFormed
    (runs_ofCheck.mpr ⟨c1, henter, rfl⟩)
  have hcode : G.InCode g.id (g.body.nodes ++ []) { s with toContext := c1 } := by
    rw [List.append_nil]
    exact { hin with
      stage := hs.enter (advances_enter h.footing (by simp) (h.notMem_value hself) henter) (by simp)
        hin.outside henter
      idle := h.idle }
  obtain ⟨r, hf⟩ := h.returns g hself
  obtain ⟨h2, -, -⟩ := (obeys_block hf g.body).run hcode hblock
  obtain ⟨hs3, hl3⟩ := h2.stage.restack s3.stack.tail
  refine ⟨hs3, fun f hm r hr => ?_⟩
  cases List.mem_singleton.mp hm
  exact ((obeys_block hr g.body).run hcode hblock).2.2.later hl3

mutual

/-- **Declarations obey the rules.** -/
lemma upholds_decl : ∀ (d : Decl) {s s' : Resolving}, Standing G.groundwork G.plan d.all s →
    G.Stage ⊥ s → Runs (decl .reopen G.plan d) s () s' →
      G.Stage ⊥ s' ∧ G.Upholds d.all s'
  | .object o, s, s', h, hs, hr => by
    simp only [decl, runs_within] at hr
    exact upholds_object o h hs hr
  | .function f, s, s', h, hs, hr => by
    simp only [decl, runs_within] at hr
    exact upholds_function h hs hr
  | .var v, s, s', h, hs, hr => by
    simp only [decl, runs_within] at hr
    refine ⟨?_, by simp [Upholds, Decl.all]⟩
    have hv : v ∈ G.program.variables := h.vars v (List.mem_singleton_self _)
    rcases runs_variableDecl hr with ⟨-, rfl⟩ | ⟨hnew, hnew', s2, hrun, hrest⟩
    · exact hs
    · have hs2 := stage_variable (answers_demandWithin G.plan.size) hs hv ⟨hnew, hnew'⟩
        (G.plan.card_waiting_le_size _) (fun _ u _ hm => by simp [h.idle] at hm) hrun
      rcases hrest with ⟨-, rfl⟩ | ⟨hkind, -⟩
      · exact hs2
      · have hquiet : Resolving.Along (Quiet G.plan) (s.begun v) s2 :=
          (within_variableType G.plan (quiet_demand G.plan) v).of_runs hrun
        rw [(hquiet hs.outside).currentKind?] at hkind
        exact absurd hkind h.kind
  | .enum _, s, s', h, hs, hr | .foreign _, s, s', h, hs, hr => by
    simp only [decl, runs_pure] at hr
    obtain ⟨-, rfl⟩ := hr
    exact ⟨hs, by simp [Upholds, Decl.all]⟩

lemma upholds_object : ∀ (o : ClassDecl) {s s' : Resolving},
    Standing G.groundwork G.plan (Decl.object o).all s → G.Stage ⊥ s →
    Runs (object .reopen G.plan o) s () s' →
      G.Stage ⊥ s' ∧ G.Upholds (Decl.object o).all s'
  | ⟨node, name, base, members⟩, s, s', h, hs, hr => by
    have h : Standing G.groundwork G.plan
      ([.object ⟨node, name, base, members⟩] ++ Decl.allOf members) s := h
    obtain ⟨c1, s2, henter, hbody, rfl⟩ := runs_inScope hr
    have ha := advances_enter h.footing (fun _ => h.typed _ List.mem_cons_self)
      (h.notMem_value List.mem_cons_self) henter
    have hout := h.outside.enter (by simp) henter
    have hclass : s.Homes node.id .object := h.homes _ List.mem_cons_self
    have hkind := hclass.currentKind? (by simp) henter
    have hs1 := hs.enter ha (fun _ => by
      obtain ⟨id, sc, -, hsc, hobject, hnode⟩ := hclass
      exact hnode ▸ hs.objects id sc hsc hobject) hout henter
    obtain ⟨hs2, -, hall⟩ := upholds_decls members
      (h.right ha (leads_enter h List.mem_cons_self rfl henter) hout
        fun hbody => by cases hkind.symm.trans hbody) hs1 hbody
    obtain ⟨hs3, hl3⟩ := hs2.restack s2.stack.tail
    refine ⟨hs3, fun f hm => hall.later hl3 f ?_⟩
    exact (List.mem_cons.mp hm).resolve_left (by simp)

lemma upholds_decls : ∀ (ds : List Decl) {s s' : Resolving},
    Standing G.groundwork G.plan (Decl.allOf ds) s → G.Stage ⊥ s →
    Runs (decls .reopen G.plan ds) s () s' →
      G.Stage ⊥ s' ∧ G.Later ⊥ s ⊥ s' ∧ G.Upholds (Decl.allOf ds) s'
  | [], s, s', h, hs, hr => by
    simp only [decls, runs_pure] at hr
    obtain ⟨-, rfl⟩ := hr
    exact ⟨hs, .refl, by simp [Upholds, Decl.allOf]⟩
  | d :: rest, s, s', h, hs, hr => by
    have h : Standing G.groundwork G.plan (d.all ++ Decl.allOf rest) s := h
    simp only [decls, runs_bind] at hr
    obtain ⟨_, s1, hd, hrest⟩ := hr
    obtain ⟨hs1, hall1⟩ := upholds_decl d h.left hs hd
    have ha := (walked_decl G.covers h.left.toReached hd).advances
    have hl := ((intact_decl d h.wellFormed).of_value hd).context
    have hgrows := (within_decl (P := fun _ => True) .reopen G.plan d).of_runs hd
    obtain ⟨hs2, hl2, hall2⟩ := upholds_decls rest (h.right ha hl hs1.outside (by
      rw [Grows.currentKind? hgrows h.wellFormed]
      exact h.kind)) hs1 hrest
    refine ⟨hs2, (Later.of_advances ha hs fun _ => .inl).trans hl2, fun f hm => ?_⟩
    rcases List.mem_append.mp hm with hm | hm
    · exact hall1.later hl2 f hm
    · exact hall2 f hm

end

end Outlook

end Sema
