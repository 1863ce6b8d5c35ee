import Mathlib.Data.List.Pairwise
import Sema.Proofs.Scopes
import Sema.Proofs.Signed

/-!
What the nodes of declarations hold. When a program has been collected, every class, function and
enum has its own layer, made of the nodes of its members, parameters and items, and so has all of a
function of the host. The annotations of the others have theirs when signatures have been resolved.
-/

namespace Sema

open Sema.Action Context

variable {c : Context} {d : Decl} {L : List (NodeId × Tag)} {ds : List Decl} {ps : List Parameter}
  {n : NodeId}

/-! ### The layers of declarations -/

def TypeExpr.layers? (early : Bool) (type : Option TypeExpr) : List (NodeId × Layer) :=
  type.elim [] (TypeExpr.layers early)

def Parameter.layers (early : Bool) (p : Parameter) : List (NodeId × Layer) :=
  (p.id, .copy early p.type.node.id) :: p.type.layers early

/-- The nodes of the fields of a class, under their names. -/
def Decl.fieldNodes (members : List Decl) : List (String × NodeId) :=
  (members.filter Decl.isField).map fun d => (d.name, d.node.id)

namespace Decl

/-- What is known of a declaration when it has been collected. -/
def heads : Decl → List (NodeId × Layer)
  | .object c => [(c.id, .object (c.base.map (·.node.id)) c.name.name (fieldNodes c.members))]
  | .function f => [(f.id, .function (f.returns.map (·.node.id)) (Parameter.fields f.parameters))]
  | .var _ => []
  | .enum e => [(e.id, .enum e.name.name (e.items.map (·.id)))]
  | .foreign f =>
    (f.id, .function (f.returns.map (·.node.id)) (Parameter.fields f.parameters)) ::
      (f.parameters.flatMap (Parameter.layers true) ++ TypeExpr.layers? true f.returns)

/-- What is known of a declaration, beyond that, when its signature has been resolved. -/
def annotated : Decl → List (NodeId × Layer)
  | .object c => TypeExpr.layers? false c.base
  | .function f =>
    f.parameters.flatMap (Parameter.layers false) ++ TypeExpr.layers? false f.returns
  | .var v => v.type.elim [] fun type => (v.id, .copy false type.node.id) :: type.layers false
  | .enum e => EnumItem.layersAll false e.items
  | .foreign _ => []

end Decl

/-- The layers are those of some nodes, and copy no others. -/
def Confined (ms : List NodeId) (ls : List (NodeId × Layer)) : Prop :=
  ∀ p ∈ ls, p.1 ∈ ms ∧ ∀ m ∈ p.2.sources, m ∈ ms

namespace Confined

variable {ms ns : List NodeId} {ls ls' : List (NodeId × Layer)} {L : List (NodeId × Tag)}

lemma nil : Confined ms [] := by simp [Confined]

lemma mono (h : Confined ms ls) (hsub : ∀ m ∈ ms, m ∈ ns) : Confined ns ls := fun p hp =>
  ⟨hsub _ (h p hp).1, fun m hm => hsub m ((h p hp).2 m hm)⟩

lemma cons {n : NodeId} {layer : Layer} (hn : n ∈ ms) (hs : ∀ m ∈ layer.sources, m ∈ ms)
    (h : Confined ms ls) : Confined ms ((n, layer) :: ls) :=
  List.forall_mem_cons.mpr ⟨⟨hn, hs⟩, h⟩

lemma append (h : Confined ms ls) (h' : Confined ns ls') : Confined (ms ++ ns) (ls ++ ls') :=
  List.forall_mem_append.mpr
    ⟨h.mono fun _ => List.mem_append_left _, h'.mono fun _ => List.mem_append_right _⟩

lemma of_fst {early : Bool} (hfst : ls.map Prod.fst = ms)
    (hwritten : ∀ p ∈ ls, p.2.isWritten early = true) : Confined ms ls := by
  intro p hp
  refine ⟨hfst ▸ List.mem_map_of_mem hp, fun m hm => ?_⟩
  rw [Layer.sources_of_isWritten (hwritten p hp)] at hm
  cases hm

lemma flatMap {α : Type} {f : α → List (NodeId × Layer)} {g : α → List NodeId} {as : List α}
    (h : ∀ a ∈ as, Confined (g a) (f a)) : Confined (as.flatMap g) (as.flatMap f) := by
  intro p hp
  obtain ⟨a, ha, hp⟩ := List.mem_flatMap.mp hp
  exact ((h a ha).mono fun m hm => List.mem_flatMap.mpr ⟨a, ha, hm⟩) p hp

/-- A step to other nodes is apart from the layers, if these do not depend on the classes and enums
among the nodes. -/
lemma apart (h : Confined ms ls) (hms : ∀ m ∈ ms, m ∈ L.map Prod.fst)
    (hdisjoint : List.Disjoint ms ns)
    (hlate : (∀ p ∈ ls, p.2.isLate = false) ∨ ∀ n ∈ ns, ∀ name, (n, Tag.type name) ∉ L) :
    Apart L ns ls := by
  refine ⟨fun p hp => hdisjoint (h p hp).1, fun p hp m hm => ?_, fun p hp hp' => ?_⟩
  · have hm := (h p hp).2 m hm
    exact ⟨hdisjoint hm, hms m hm⟩
  · rcases hlate with hlate | hlate
    · rw [hlate p hp] at hp'
      cases hp'
    · exact hlate

end Confined

lemma TypeExpr.confined_layers (early : Bool) (type : TypeExpr) :
    Confined type.nodes (type.layers early) :=
  .of_fst (TypeExpr.layers_fst early type) (TypeExpr.isWritten_layers early)

lemma TypeExpr.confined_layers? (early : Bool) (type : Option TypeExpr) :
    Confined (TypeExpr.nodes? type) (TypeExpr.layers? early type) := by
  cases type with
  | none => exact .nil
  | some type => exact type.confined_layers early

lemma Parameter.confined_layers (early : Bool) (p : Parameter) :
    Confined p.nodes (p.layers early) := by
  refine .cons List.mem_cons_self ?_
    ((p.type.confined_layers early).mono fun _ => List.mem_cons_of_mem _)
  intro m hm
  rw [List.mem_singleton.mp hm]
  exact List.mem_cons_of_mem _ p.type.node_mem_nodes

lemma Decl.confined_heads (d : Decl) : Confined d.signature d.heads := by
  cases d with
  | object c => exact .cons (by simp [signature]) (by simp [Layer.sources]) .nil
  | function f => exact .cons (by simp [signature]) (by simp [Layer.sources]) .nil
  | var v => exact .nil
  | enum e => exact .cons (by simp [signature]) (by simp [Layer.sources]) .nil
  | foreign f =>
    refine .cons (by simp [signature]) (by simp [Layer.sources]) (Confined.mono ?_ fun _ =>
      List.mem_cons_of_mem _)
    exact (Confined.flatMap fun p _ => p.confined_layers true).append
      (TypeExpr.confined_layers? true f.returns)

/-- What a collected declaration is known to be does not depend on what is collected later. -/
lemma Decl.isLate_heads (d : Decl) : ∀ p ∈ d.heads, p.2.isLate = false := by
  cases d with
  | object | function | enum => exact List.forall_mem_singleton.mpr rfl
  | var => simp [heads]
  | foreign f =>
    refine List.forall_mem_cons.mpr ⟨rfl, List.forall_mem_append.mpr ⟨fun l hl => ?_, ?_⟩⟩
    · obtain ⟨p, -, hl⟩ := List.mem_flatMap.mp hl
      rcases List.mem_cons.mp hl with rfl | hl
      · rfl
      · exact Layer.isLate_of_isWritten (TypeExpr.isWritten_layers true l hl)
    · rcases f with ⟨_, _, _, _ | type⟩
      · simp [TypeExpr.layers?]
      · exact fun l hl => Layer.isLate_of_isWritten (TypeExpr.isWritten_layers true l hl)

/-! ### Nodes without a type -/

namespace Context

variable {L : List (NodeId × Tag)} {c c' : Context} {ms ns : List NodeId}
  {ls : List (NodeId × Layer)} {early : Bool}

/-- The nodes have no slots yet. A class or an enum may have one, from where it is named. -/
def Untyped (L : List (NodeId × Tag)) (ns : List NodeId) (c : Context) : Prop :=
  ∀ n ∈ ns, n ∈ L.map Prod.fst → c.nodeType? n = none ∨ ∃ name, (n, Tag.type name) ∈ L

lemma Untyped.touches (h : Untyped L ns c) (ht : Touches L ms c c')
    (hdisjoint : List.Disjoint ms ns) : Untyped L ns c' := by
  intro n hn hk
  rcases h n hn hk with hnone | htype
  · rcases hx : c'.nodeType? n with _ | x
    · exact .inl rfl
    · refine .inr ((ht.fresh n x hnone hx).1.resolve_left fun hm => ?_)
      exact hdisjoint hm hn
  · exact .inr htype

lemma Untyped.mono (h : Untyped L ns c) (hsub : ∀ n ∈ ms, n ∈ ns) : Untyped L ms c :=
  fun n hn => h n (hsub n hn)

lemma Untyped.nameable (h : Untyped L ns c) (hns : ∀ n ∈ ns, ∀ name, (n, Tag.type name) ∉ L) :
    Nameable L early ns c :=
  .inr fun n hn hk => (h n hn hk).resolve_right fun ⟨name, hname⟩ => hns n hn name hname

/-- Layers of some nodes stay when the step comes to others. -/
lemma Signed.apart (h : Signed L ls c) (ha : c.Arranged L)
    (hls : Confined ms ls) (hms : ∀ m ∈ ms, m ∈ L.map Prod.fst) (ht : Touches L ns c c')
    (hdisjoint : List.Disjoint ms ns)
    (hlate : (∀ p ∈ ls, p.2.isLate = false) ∨ ∀ n ∈ ns, ∀ name, (n, Tag.type name) ∉ L) :
    Signed L ls c' :=
  h.touches ha ht (hls.apart hms hdisjoint hlate)

end Context

lemma Context.Private.not_type (hL : (L.map Prod.fst).Nodup) (hn : Private L n)
    (name : String) : (n, Tag.type name) ∉ L := by
  intro hname
  rcases hn with hn | hn <;> cases tag_unique hL hn hname

lemma Parameter.tags_fst (p : Parameter) : p.tags.map Prod.fst = p.nodes := by
  simp [Parameter.tags, Parameter.nodes, p.type.tags_fst]

lemma Parameter.isType_tags : ∀ p ∈ ps.flatMap Parameter.tags, p.2.isType = false := by
  intro t ht
  obtain ⟨p, -, ht⟩ := List.mem_flatMap.mp ht
  rcases List.mem_cons.mp ht with rfl | ht
  · rfl
  · exact TypeExpr.isType_tags t ht

lemma TypeExpr.isType_tags? {type : Option TypeExpr} :
    ∀ p ∈ TypeExpr.tags? type, p.2.isType = false := by
  cases type with
  | none => simp [TypeExpr.tags?]
  | some type => exact TypeExpr.isType_tags

lemma Decl.flatMap_tags_fst (ds : List Decl) :
    (ds.flatMap Decl.tags).map Prod.fst = ds.flatMap Decl.signature := by
  rw [List.map_flatMap]
  congr 1
  funext d
  exact d.tags_fst

lemma Decl.fieldNodes_append (d : Decl) (ds : List Decl) :
    Decl.fieldNodes [d] ++ Decl.fieldNodes ds = Decl.fieldNodes (d :: ds) := by
  cases h : d.isField <;> simp [Decl.fieldNodes, h]

/-- Each of the slots that parameters have is that of one of them. -/
lemma Parameter.exists_of_fields {slots : List (String × Slot)}
    (h : Layer.Fields c (Parameter.fields ps) slots) :
    ∀ f ∈ slots, ∃ p ∈ ps, c.nodeType? p.id = some f.2 := by
  induction ps generalizing slots with
  | nil =>
    cases h
    simp
  | cons p rest ih =>
    cases h with
    | cons hf hrest =>
      refine List.forall_mem_cons.mpr ⟨⟨p, List.mem_cons_self, hf.2⟩, fun g hg => ?_⟩
      obtain ⟨p', hp', hnode⟩ := ih hrest g hg
      exact ⟨p', List.mem_cons_of_mem _ hp', hnode⟩

/-! ### Collection -/

namespace Collect

/-- A node that a scope was opened for has that scope. -/
lemma scopeOf?_of_enter {l : Location} (h : Runs (ScopeMode.fresh.enter kind n l) c () c') :
    c'.scopeOf? n = some c'.currentOrRoot := by
  unfold Runs at h
  rw [ScopeMode.outcome_enter, if_neg (by simp), if_neg (by simp [ScopeMode.mustReopen])] at h
  cases h
  exact (Table.get?_insert _ _ _ _).trans (if_pos rfl)

lemma scopeOf?_of_setShape {m : NodeId} {shape : Shape}
    (h : c.setShape n shape = (x, c')) : c'.scopeOf? m = c.scopeOf? m := by
  rcases hn : c.nodeType? n with _ | y
  · rw [setShape_of_none hn] at h
    cases h
    rfl
  · rw [setShape_of_some hn] at h
    cases h
    rfl

open Layer (Holders Fields Result Base Holds Suits)

variable {L : List (NodeId × Tag)} {tolerance : Tolerance} {early : Bool}
  {c c' : Context}
  {slots : List (String × Slot)} {n : NodeId} {kind : ScopeKind} {mode : ScopeMode} {x : Slot}

/-- Parameters hold what their annotations hold, where that is known. -/
lemma signed_parametersFrom {declared : Bool} :
    ∀ {ps : List Parameter} {c c' : Context} {slots : List (String × Slot)}, c.Arranged L →
      (∀ p ∈ ps.flatMap Parameter.tags, p ∈ L) → (ps.flatMap Parameter.nodes).Nodup →
      Nameable L early (ps.flatMap Parameter.nodes) c →
      Runs (parametersFrom declared tolerance ps) c slots c' →
        Touches L (ps.flatMap Parameter.nodes) c c' ∧ Fields c' (Parameter.fields ps) slots ∧
          (tolerance = .strict → (∀ f ∈ slots, c'.types.get f.2 ≠ .unknown) →
            Signed L (ps.flatMap (Parameter.layers early)) c')
  | [], c, c', slots, h, _, _, _, hr => by
    simp only [parametersFrom, runs_pure] at hr
    obtain ⟨rfl, rfl⟩ := hr
    exact ⟨.refl h, .nil, fun _ _ => by simp [Signed]⟩
  | p :: rest, c, c', slots, h, ht, hnd, hc, hr => by
    rw [List.flatMap_cons] at ht hnd hc
    obtain ⟨ht1, ht2⟩ := List.forall_mem_append.mp ht
    obtain ⟨htag, htype⟩ := List.forall_mem_cons.mp ht1
    obtain ⟨hnd1, hnd2, hdisjoint⟩ := List.nodup_append'.mp hnd
    have hkeys1 := keys_of_tags (Parameter.tags_fst _) ht1
    have hplain1 := not_type_of_tags h.nodup (Parameter.tags_fst _) ht1
      (List.forall_mem_cons.mpr ⟨rfl, TypeExpr.isType_tags⟩)
    have hplain2 := not_type_of_tags h.nodup
      (Parameter.flatMap_tags_fst _) ht2 Parameter.isType_tags
    obtain ⟨c1, h1, hr⟩ : ∃ c1, Touches L [] c c1 ∧ Runs (do
        let s ← TypeExpr.resolveInto tolerance p.id p.type
        return (p.name.name, s) :: (← parametersFrom declared tolerance rest)) c1 slots c' := by
      unfold parametersFrom at hr
      split at hr
      · obtain ⟨_, c1, hdecl, hr⟩ := runs_bind.mp hr
        exact ⟨c1, h.touches_declare (by simp) hdecl, hr⟩
      · exact ⟨c, .refl h, hr⟩
    simp only [runs_bind, runs_pure] at hr
    obtain ⟨x, c2, hx, xs, _, hrest, rfl, rfl⟩ := hr
    have hc1 := hc.touches h h1 (by simp) (List.forall_mem_append.mpr ⟨hplain1, hplain2⟩)
      (by simp)
    obtain ⟨h2, hnode, ⟨y, hy, hget⟩, hsigned1⟩ := TypeExpr.signed_resolveInto h1.arranged
      (.inl htag) htype hnd1 hc1.left.tail hx
    have hc2 := hc1.right.touches h1.arranged h2 hplain1 hplain2 hdisjoint
    obtain ⟨h3, hfields, hsigned2⟩ := signed_parametersFrom h2.arranged ht2 hnd2 hc2 hrest
    refine ⟨(h1.trans h2).trans h3, .cons ⟨rfl, h3.nodeType _ _ hnode⟩ hfields,
      fun hstrict hknown => ?_⟩
    obtain ⟨hknown1, hknown2⟩ := List.forall_mem_cons.mp hknown
    -- what is unknown of a parameter stays unknown
    have hx2 : c2.types.get x ≠ .unknown := by
      intro hu
      have hstays := h3.private_stays h2.arranged (.inl htag) hnode
        (hdisjoint List.mem_cons_self)
      rw [hu] at hstays
      exact hknown1 (hstays.eq_of_plain rfl)
    have hown : Signed L (p.layers early) c2 :=
      TypeExpr.signed_copy (.inl htag) (hsigned1 hstrict) hnode hy hget hx2
    exact (hown.apart h2.arranged (p.confined_layers early) hkeys1 h3 hdisjoint
      (.inr hplain2)).append (hsigned2 hstrict hknown2)

lemma signed_parameters {ps : List Parameter} (h : c.Arranged L)
    (ht : ∀ p ∈ ps.flatMap Parameter.tags, p ∈ L) (hnd : (ps.flatMap Parameter.nodes).Nodup)
    (hc : Nameable L early (ps.flatMap Parameter.nodes) c)
    (hr : Runs (parameters tolerance ps) c slots c') :
    Touches L (ps.flatMap Parameter.nodes) c c' ∧ Fields c' (Parameter.fields ps) slots ∧
      (tolerance = .strict → (∀ f ∈ slots, c'.types.get f.2 ≠ .unknown) →
        Signed L (ps.flatMap (Parameter.layers early)) c') := by
  simp only [parameters, runs_bind, runs_get] at hr
  obtain ⟨_, _, ⟨rfl, rfl⟩, hr⟩ := hr
  exact signed_parametersFrom h ht hnd hc hr

lemma signed_resultType {type : Option TypeExpr} (h : c.Arranged L)
    (ht : ∀ p ∈ TypeExpr.tags? type, p ∈ L) (hnd : (TypeExpr.nodes? type).Nodup)
    (hc : Nameable L early (TypeExpr.nodes? type) c)
    (hr : Runs (resultType tolerance type) c x c') :
    Touches L (TypeExpr.nodes? type) c c' ∧ Result L c' x (type.map (·.node.id)) ∧
      (tolerance = .strict → Signed L (TypeExpr.layers? early type) c') := by
  cases type with
  | none =>
    simp only [resultType, Check.runs_alloc] at hr
    cases hr
    refine ⟨h.touches_alloc .void, ⟨?_, fun n hn hnx => ?_⟩, fun _ => by
      simp [TypeExpr.layers?, Signed]⟩
    · exact (TypeStore.get_alloc _ _ _).trans (if_pos rfl)
    · exact absurd (h.lt n _ hn hnx) (Nat.lt_irrefl _)
  | some type =>
    obtain ⟨h1, hsigned⟩ := TypeExpr.signed_resolve h ht hnd hc hr
    exact ⟨h1, TypeExpr.nodeType?_resolve hr, hsigned⟩

/-- What is done in the scope of a node. -/
lemma signed_inScope {α : Type} {a : α} {node : Node} {body : Check α} {ns : List NodeId}
    {ls : List (NodeId × Layer)} (h : c.Arranged L)
    (hls : ∀ p ∈ ls, ∀ m ∈ p.2.sources, m ∈ L.map Prod.fst)
    (hbody : ∀ {c1 c2}, Runs (mode.enter kind node.id node.location) c () c1 →
      Touches L [node.id] c c1 → Runs body c1 a c2 → Touches L ns c1 c2 ∧ Signed L ls c2)
    (hr : Runs (mode.inScope kind node body) c a c') :
    Touches L (node.id :: ns) c c' ∧ Signed L ls c' := by
  obtain ⟨c1, c2, henter, hb, rfl⟩ := runs_bracket.mp hr
  have h1 : Touches L [node.id] c c1 := h.touches_enter (List.mem_singleton_self _) henter
  obtain ⟨h2, hsigned⟩ := hbody henter h1 hb
  have h3 : Touches L [] c2 (mode.leave c2) := h2.arranged.touches_leave mode
  refine ⟨((h1.trans h2).trans h3).mono (by simp), ?_⟩
  exact hsigned.touches h2.arranged h3 ⟨by simp, fun p hp m hm =>
    ⟨by simp, hls p hp m hm⟩, by simp⟩

/-- The type of a function, once its parameters and its result are known. -/
lemma signed_signature {ps : List (String × NodeId)} {result : Option NodeId} {r : Slot}
    (h : c.Arranged L) (ht : (n, Tag.plain) ∈ L) (hps : Fields c ps slots)
    (hresult : Result L c r result) (hs : c.setShape n (.function r slots) = (x, c')) :
    Signed L [(n, .function result ps)] c' := by
  have hnone : Signed L [] c := by simp [Signed]
  refine hnone.setShape h (by simp) ht ht hs fun htouch hget => ?_
  exact ⟨r, slots, hresult.touches htouch, hps.touches htouch, hget⟩

lemma signed_function {f : FunctionDecl} (h : c.Arranged L)
    (ht : ∀ p ∈ (Decl.function f).tags, p ∈ L) (hnd : (Decl.function f).signature.Nodup)
    (hu : Untyped L (Decl.function f).signature c) (hr : Runs (function mode f) c () c') :
    Touches L (Decl.function f).signature c c' ∧ Signed L (Decl.function f).heads c' := by
  obtain ⟨htag, hrest⟩ := List.forall_mem_cons.mp ht
  obtain ⟨hps, hreturns⟩ := List.forall_mem_append.mp hrest
  obtain ⟨hnot, hnd⟩ := List.nodup_cons.mp hnd
  obtain ⟨hnd1, hnd2, hdisjoint⟩ := List.nodup_append'.mp hnd
  have hplain1 := not_type_of_tags h.nodup (Parameter.flatMap_tags_fst _) hps Parameter.isType_tags
  have hplain2 := not_type_of_tags h.nodup (TypeExpr.tags?_fst _) hreturns TypeExpr.isType_tags?
  simp only [function, runs_bind] at hr
  obtain ⟨_, c1, hdecl, hr⟩ := hr
  have h1 : Touches L [] c c1 := h.touches_declare (by simp) hdecl
  have hbody : ∀ {c2 c3}, Touches L [f.id] c1 c2 → Runs (do
      let ps ← parameters .lenient f.parameters
      let returns ← resultType .lenient f.returns
      let _ ← Check.setShape f.id (.function returns ps)) c2 () c3 →
      Touches L (Decl.function f).signature c2 c3 ∧ Signed L (Decl.function f).heads c3 := by
    intro c2 c3 h2 hb
    simp only [runs_bind, Check.runs_setShape, runs_pure] at hb
    obtain ⟨slots, c4, hps', r, c5, hreturns', x, _, hset, -, rfl⟩ := hb
    have hu2 : Untyped L (f.parameters.flatMap Parameter.nodes ++ TypeExpr.nodes? f.returns) c2 :=
      ((hu.mono fun _ => List.mem_cons_of_mem _).touches h1 (by simp)).touches h2
        (by simpa using hnot)
    have hc2 : Nameable L false _ c2 :=
      hu2.nameable (List.forall_mem_append.mpr ⟨hplain1, hplain2⟩)
    obtain ⟨h4, hfields, -⟩ := signed_parameters h2.arranged hps hnd1 hc2.left hps'
    have hc4 := hc2.right.touches h2.arranged h4 hplain1 hplain2 hdisjoint
    obtain ⟨h5, hresult, -⟩ := signed_resultType h4.arranged hreturns hnd2 hc4 hreturns'
    exact ⟨(h4.trans h5).setShape htag hset,
      signed_signature h5.arranged htag (hfields.touches h5) hresult hset⟩
  obtain ⟨h2, hsigned⟩ := signed_inScope h1.arranged
    (List.forall_mem_singleton.mpr (by simp [Layer.sources])) (fun _ h2 hb => hbody h2 hb) hr
  exact ⟨(h1.trans h2).mono (by simp [Decl.signature]), hsigned⟩

lemma signed_variableDecl {v : VariableDecl} (h : c.Arranged L)
    (ht : ∀ p ∈ (Decl.var v).tags, p ∈ L) (hnd : (Decl.var v).signature.Nodup)
    (hu : Untyped L (Decl.var v).signature c) (hr : Runs (variableDecl v) c () c') :
    Touches L (Decl.var v).signature c c' ∧ c'.Typed [v.id] := by
  obtain ⟨htag, htype⟩ := List.forall_mem_cons.mp ht
  simp only [variableDecl, runs_bind] at hr
  obtain ⟨_, c1, hdecl, hr⟩ := hr
  have h1 : Touches L [] c c1 := h.touches_declare (by simp) hdecl
  split at hr
  · next _ type heq =>
    have hplain := not_type_of_tags h.nodup (TypeExpr.tags?_fst _) htype TypeExpr.isType_tags?
    simp only [Decl.signature, heq] at hnd hu htype hplain ⊢
    simp only [runs_bind, runs_pure] at hr
    obtain ⟨x, _, hx, -, rfl⟩ := hr
    have hu1 := (hu.touches h1 (by simp)).mono fun _ => List.mem_cons_of_mem v.id
    have hc1 : Nameable L false type.nodes c1 := hu1.nameable hplain
    obtain ⟨h2, hnode, -⟩ :=
      TypeExpr.signed_resolveInto h1.arranged (.inr htag) htype hnd hc1 hx
    exact ⟨h1.trans h2, List.forall_mem_singleton.mpr ⟨x, hnode⟩⟩
  · simp only [runs_bind, runs_get, Check.runs_alloc, Check.runs_slotOf, Check.runs_assign] at hr
    obtain ⟨_, _, ⟨rfl, rfl⟩, guess, c2, halloc, x, c3, hslot, rfl⟩ := hr
    have h2 : Touches L [] c1 c2 := by
      cases halloc
      exact h1.arranged.touches_alloc _
    have hmem : v.id ∈ (Decl.var v).signature := List.mem_cons_self
    have h3 : Touches L (Decl.var v).signature c2 c3 :=
      h2.arranged.touches_slotOf htag (.inl hmem) hslot
    have h4 : Touches L (Decl.var v).signature c3 (c3.assign x guess) :=
      h3.arranged.touches_assign (.inr htag) hmem (nodeType?_of_slotOf hslot) guess
    exact ⟨((h1.trans h2).trans (h3.trans h4)).mono (by simp),
      List.forall_mem_singleton.mpr ⟨x, h4.nodeType _ _ (nodeType?_of_slotOf hslot)⟩⟩
  · simp at hr

lemma signed_enumItems : ∀ {items : List EnumItem} {c c' : Context} {slots : List Slot},
    c.Arranged L → (∀ p ∈ EnumItem.tagsAll items, p ∈ L) → (EnumItem.nodesAll items).Nodup →
    Untyped L (EnumItem.nodesAll items) c → Runs (enumItems items) c slots c' →
      Touches L (EnumItem.nodesAll items) c c' ∧ Holders c' (items.map (·.id)) slots
  | [], c, c', slots, h, _, _, _, hr => by
    simp only [enumItems, runs_pure] at hr
    obtain ⟨rfl, rfl⟩ := hr
    exact ⟨.refl h, .nil⟩
  | item :: rest, c, c', slots, h, ht, hnd, hu, hr => by
    obtain ⟨ht1, ht2⟩ := List.forall_mem_append.mp ht
    obtain ⟨hnd1, hnd2, hdisjoint⟩ := List.nodup_append'.mp hnd
    simp only [enumItems, runs_bind, runs_pure] at hr
    obtain ⟨_, c1, hdecl, x, c2, hitem, xs, _, hrest, rfl, rfl⟩ := hr
    have h1 : Touches L [] c c1 := h.touches_declare (by simp) hdecl
    have hplain := not_type_of_tags h.nodup (EnumItem.tags_fst _) ht1 EnumItem.isType_tags
    have hu1 := hu.touches h1 (by simp)
    have hc1 : Nameable L false item.nodes c1 :=
      (hu1.mono fun _ => List.mem_append_left _).nameable hplain
    obtain ⟨h2, -⟩ := TypeExpr.signed_resolveItem h1.arranged ht1 hnd1 hc1 hitem
    have hu2 := (hu1.mono fun _ => List.mem_append_right _).touches h2 hdisjoint
    obtain ⟨h3, hheld⟩ := signed_enumItems h2.arranged ht2 hnd2 hu2 hrest
    exact ⟨(h1.trans h2).trans h3,
      .cons (h3.nodeType _ _ (TypeExpr.nodeType?_resolveItem hitem)) hheld⟩

lemma signed_enum {e : EnumDecl} (h : c.Arranged L) (ht : ∀ p ∈ (Decl.enum e).tags, p ∈ L)
    (hnd : (Decl.enum e).signature.Nodup) (hu : Untyped L (Decl.enum e).signature c)
    (hr : Runs (enum .fresh e) c () c') :
    Touches L (Decl.enum e).signature c c' ∧ Signed L (Decl.enum e).heads c' := by
  obtain ⟨htag, hitems⟩ := List.forall_mem_cons.mp ht
  obtain ⟨hnot, hnd⟩ := List.nodup_cons.mp hnd
  simp only [enum, runs_bind] at hr
  obtain ⟨_, c1, hdecl, hr⟩ := hr
  have h1 : Touches L [] c c1 := h.touches_declare (fun _ => htag) hdecl
  have hbody : ∀ {c2 c3}, Runs (ScopeMode.fresh.enter .enum e.id e.location) c1 () c2 →
      Touches L [e.id] c1 c2 → Runs (do
        let scope := (← get).currentOrRoot
        let items ← enumItems e.items
        let _ ← Check.setShape e.id (.enum scope e.name.name items)) c2 () c3 →
      Touches L (Decl.enum e).signature c2 c3 ∧ Signed L (Decl.enum e).heads c3 := by
    intro c2 c3 henter h2 hb
    simp only [runs_bind, runs_get, Check.runs_setShape, runs_pure] at hb
    obtain ⟨_, _, ⟨rfl, rfl⟩, items, c4, hitems', x, _, hset, -, rfl⟩ := hb
    have hu2 : Untyped L (EnumItem.nodesAll e.items) c2 :=
      ((hu.mono fun _ => List.mem_cons_of_mem _).touches h1 (by simp)).touches h2
        (by simpa using hnot)
    obtain ⟨h4, hheld⟩ := signed_enumItems h2.arranged hitems hnd hu2 hitems'
    have h5 : Touches L [e.id] c4 _ := h4.arranged.touches_setNominal htag
      (List.mem_singleton_self _) rfl hset
    have hget := h4.arranged.get_of_setShape (mem_keys htag) hset
    have hscope : c2.scopeOf? e.id = some c2.currentOrRoot := scopeOf?_of_enter henter
    refine ⟨(h4.trans h5).mono (by simp [Decl.signature, or_comm]), ?_⟩
    refine List.forall_mem_singleton.mpr ⟨x, nodeType?_of_setShape hset, htag, ?_, fun _ => ?_⟩
    · rw [hget]
      rfl
    · refine ⟨_, items, ?_, hheld.touches h5, hget⟩
      rw [scopeOf?_of_setShape hset, h4.scopeOf e.id (mem_keys htag) hnot, hscope]
  obtain ⟨h2, hsigned⟩ := signed_inScope h1.arranged
    (List.forall_mem_singleton.mpr (by simp [Layer.sources])) hbody hr
  exact ⟨(h1.trans h2).mono (by simp [Decl.signature]), hsigned⟩

lemma signed_foreign {f : ForeignDecl} (h : c.Arranged L) (ht : ∀ p ∈ (Decl.foreign f).tags, p ∈ L)
    (hnd : (Decl.foreign f).signature.Nodup) (hu : Untyped L (Decl.foreign f).signature c)
    (hr : Runs (foreign f) c () c') :
    Touches L (Decl.foreign f).signature c c' ∧ Signed L (Decl.foreign f).heads c' := by
  obtain ⟨htag, hrest⟩ := List.forall_mem_cons.mp ht
  obtain ⟨hps, hreturns⟩ := List.forall_mem_append.mp hrest
  obtain ⟨hnot, hnd⟩ := List.nodup_cons.mp hnd
  obtain ⟨hnd1, hnd2, hdisjoint⟩ := List.nodup_append'.mp hnd
  have hplain1 := not_type_of_tags h.nodup (Parameter.flatMap_tags_fst _) hps Parameter.isType_tags
  have hplain2 := not_type_of_tags h.nodup (TypeExpr.tags?_fst _) hreturns TypeExpr.isType_tags?
  have hkeys1 := keys_of_tags (Parameter.flatMap_tags_fst _) hps
  have hkeys2 := keys_of_tags (TypeExpr.tags?_fst _) hreturns
  simp only [foreign, runs_bind, runs_orElseFault, Check.runs_setShape, Check.runs_types] at hr
  obtain ⟨_, c1, hdecl, slots, c2, hps', r, c3, hreturns', x, c4, hset, _, _, ⟨rfl, rfl⟩, hr⟩ := hr
  obtain ⟨rfl, hcomplete⟩ : c4 = c' ∧ c4.types.isIncomplete x = false := by
    split at hr
    · simp at hr
    · next hcomplete => exact ⟨(runs_pure.mp hr).2, by simpa using hcomplete⟩
  have h1 : Touches L [] c c1 := h.touches_declare (by simp) hdecl
  have hu1 := (hu.mono fun _ => List.mem_cons_of_mem _).touches h1 (by simp)
  have hc1 : Nameable L true _ c1 := hu1.nameable (List.forall_mem_append.mpr ⟨hplain1, hplain2⟩)
  obtain ⟨h2, hfields, hsigned1⟩ := signed_parameters h1.arranged hps hnd1 hc1.left hps'
  have hc2 := hc1.right.touches h1.arranged h2 hplain1 hplain2 hdisjoint
  obtain ⟨h3, hresult, hsigned2⟩ := signed_resultType h2.arranged hreturns hnd2 hc2 hreturns'
  have h4 : Touches L [f.id] c3 c4 :=
    h3.arranged.touches_setShape htag (List.mem_singleton_self _) hset
  have h34 := h3.trans h4
  refine ⟨((h1.trans h2).trans h34).mono fun n hn => ?_, ?_⟩
  · simp only [Decl.signature, List.nil_append, List.mem_cons, List.mem_append, List.mem_nil_iff,
      or_false] at hn ⊢
    rcases hn with hn | hn | hn
    · exact .inr (.inl hn)
    · exact .inr (.inr hn)
    · exact .inl hn
  obtain ⟨hnot1, hnot2⟩ := not_or.mp (mt List.mem_append.mpr hnot)
  have hdisjoint' : List.Disjoint (f.parameters.flatMap Parameter.nodes)
      (TypeExpr.nodes? f.returns ++ [f.id]) := by
    refine List.disjoint_append_right.mpr ⟨hdisjoint, ?_⟩
    exact fun n hn hf => hnot1 (List.mem_singleton.mp hf ▸ hn)
  -- a concrete function has parameters of known types
  have hknown : ∀ g ∈ slots, c2.types.get g.2 ≠ .unknown := by
    intro g hg hu
    obtain ⟨p, hp, hnode⟩ := Parameter.exists_of_fields hfields g hg
    have hget := h3.arranged.get_of_setShape (mem_keys htag) hset
    have hmem : p.id ∈ f.parameters.flatMap Parameter.nodes :=
      List.mem_flatMap.mpr ⟨p, hp, List.mem_cons_self⟩
    have hptag : (p.id, Tag.plain) ∈ L :=
      hps _ (List.mem_flatMap.mpr ⟨p, hp, List.mem_cons_self⟩)
    have hstays := h34.private_stays h2.arranged (.inl hptag) hnode (hdisjoint' hmem)
    rw [hu] at hstays
    have hpart : c4.types.Part x g.2 := by
      refine Relation.ReflTransGen.single ?_
      change g.2 ∈ (c4.types.get x).components
      rw [hget]
      exact List.mem_cons_of_mem _ (List.mem_map_of_mem hg)
    have : c4.types.isIncomplete x = true :=
      TypeStore.isIncomplete_iff.mpr ⟨g.2, hpart, by rw [hstays.eq_of_plain rfl]; rfl⟩
    rw [hcomplete] at this
    cases this
  have hparameters := (hsigned1 rfl hknown).apart h2.arranged
    (Confined.flatMap fun p _ => p.confined_layers true) hkeys1 h34 hdisjoint'
    (.inr (List.forall_mem_append.mpr ⟨hplain2, List.forall_mem_singleton.mpr fun name hname => by
      cases h.tag_unique htag hname⟩))
  have hreturned := (hsigned2 rfl).apart h3.arranged (TypeExpr.confined_layers? true f.returns)
    hkeys2 h4 (by simpa using hnot2)
    (.inr (List.forall_mem_singleton.mpr fun name hname => by cases h.tag_unique htag hname))
  exact (signed_signature h3.arranged htag (hfields.touches h3) hresult hset).append
    (hparameters.append hreturned)

lemma signed_baseType {base : Option TypeExpr} {b : Option Slot} (h : c.Arranged L)
    (ht : ∀ p ∈ TypeExpr.tags? base, p ∈ L) (hnd : (TypeExpr.nodes? base).Nodup)
    (hu : Untyped L (TypeExpr.nodes? base) c) (hr : Runs (baseType base) c b c') :
    Touches L (TypeExpr.nodes? base) c c' ∧ Base c' (base.map (·.node.id)) b := by
  have hplain := not_type_of_tags h.nodup (TypeExpr.tags?_fst _) ht TypeExpr.isType_tags?
  have hc : Nameable L false _ c := hu.nameable hplain
  cases base with
  | none =>
    simp only [baseType, runs_pure] at hr
    obtain ⟨rfl, rfl⟩ := hr
    exact ⟨.refl h, trivial⟩
  | some type =>
    simp only [baseType, runs_bind, runs_pure] at hr
    obtain ⟨x, _, hx, rfl, rfl⟩ := hr
    exact ⟨(TypeExpr.signed_resolve h ht hnd hc hx).1, TypeExpr.nodeType?_resolve hx⟩

/-- A class gets its next field. -/
lemma signed_addField {object : Slot} {member : Decl} {base : Option NodeId} {name : String}
    {fields : List (String × NodeId)} (h : c.Arranged L) (htag : (n, Tag.type name) ∈ L)
    (hx : c.nodeType? n = some object) (hmember : c.Typed [member.node.id])
    (hholds : (Layer.object base name fields).Holds L c n object)
    (hr : Runs (addField object member) c () c') : Touches L [n] c c' ∧
      (Layer.object base name (fields ++ Decl.fieldNodes [member])).Holds L c' n object := by
  unfold addField at hr
  split at hr
  · next hfield =>
    obtain ⟨s, hs⟩ := hmember _ (List.mem_singleton_self _)
    simp only [runs_bind, Check.runs_slotOf, slotOf_of_some hs, Check.runs_types,
      runs_modify] at hr
    obtain ⟨_, _, heq, _, _, ⟨rfl, rfl⟩, rfl⟩ := hr
    cases heq
    have hname : ((c.types.get object).addField member.name s).nominalName? = some name := by
      rw [← hholds.1]
      cases c.types.get object <;> rfl
    have htouch : Touches L [n] c
        { c with types := c.types.set object ((c.types.get object).addField member.name s) } :=
      h.touches_setType htag (List.mem_singleton_self n) hx hname
    have hget : (c.types.set object ((c.types.get object).addField member.name s)).get object =
        (c.types.get object).addField member.name s :=
      (TypeStore.get_set _ _ _ _ (h.lt n object (mem_keys htag) hx)).trans (if_pos rfl)
    refine ⟨htouch, (congrArg Shape.nominalName? hget).trans hname, fun hq => ?_⟩
    obtain ⟨scope, b, slots, hscope, hbase, hslots, hshape⟩ := hholds.2 hq
    refine ⟨scope, b, slots ++ [(member.name, s)], hscope, hbase.touches htouch, ?_, ?_⟩
    · have hfields : Decl.fieldNodes [member] = [(member.name, member.node.id)] := by
        simp [Decl.fieldNodes, hfield]
      rw [hfields]
      exact List.rel_append (hslots.touches htouch) (.cons ⟨rfl, htouch.nodeType _ _ hs⟩ .nil)
    · rw [hget, hshape]
      rfl
  · next hfield =>
    simp only [runs_pure] at hr
    obtain ⟨-, rfl⟩ := hr
    refine ⟨.refl h, ?_⟩
    have : Decl.fieldNodes [member] = [] := by simp [Decl.fieldNodes, hfield]
    rwa [this, List.append_nil]

mutual

/-- **What collecting a declaration does**: it touches the nodes of its signature and of the
signatures inside it, and each of these declarations has its layers afterwards. -/
lemma signed_decl : ∀ {d : Decl} {c c' : Context}, c.Arranged L →
    (∀ p ∈ d.all.flatMap Decl.tags, p ∈ L) → (d.all.flatMap Decl.signature).Nodup →
    Untyped L (d.all.flatMap Decl.signature) c → Runs (decl .fresh d) c () c' →
      Touches L (d.all.flatMap Decl.signature) c c' ∧ c'.Typed [d.node.id] ∧
        Signed L (d.all.flatMap Decl.heads) c'
  | .object o, c, c', h, ht, hnd, hu, hr => by
    obtain ⟨htouch, hsigned⟩ := signed_object h ht hnd hu (runs_within.mp hr)
    obtain ⟨x, hx, -⟩ := hsigned _ List.mem_cons_self
    exact ⟨htouch, List.forall_mem_singleton.mpr ⟨x, hx⟩, hsigned⟩
  | .function f, c, c', h, ht, hnd, hu, hr => by
    simp only [Decl.all, List.flatMap_singleton] at ht hnd hu ⊢
    obtain ⟨htouch, hsigned⟩ := signed_function h ht hnd hu (runs_within.mp hr)
    obtain ⟨x, hx, -⟩ := hsigned _ List.mem_cons_self
    exact ⟨htouch, List.forall_mem_singleton.mpr ⟨x, hx⟩, hsigned⟩
  | .var v, c, c', h, ht, hnd, hu, hr => by
    simp only [Decl.all, List.flatMap_singleton] at ht hnd hu ⊢
    obtain ⟨htouch, htyped⟩ := signed_variableDecl h ht hnd hu (runs_within.mp hr)
    exact ⟨htouch, htyped, by simp [Decl.heads, Signed]⟩
  | .enum e, c, c', h, ht, hnd, hu, hr => by
    simp only [Decl.all, List.flatMap_singleton] at ht hnd hu ⊢
    obtain ⟨htouch, hsigned⟩ := signed_enum h ht hnd hu (runs_within.mp hr)
    obtain ⟨x, hx, -⟩ := hsigned _ List.mem_cons_self
    exact ⟨htouch, List.forall_mem_singleton.mpr ⟨x, hx⟩, hsigned⟩
  | .foreign f, c, c', h, ht, hnd, hu, hr => by
    simp only [Decl.all, List.flatMap_singleton] at ht hnd hu ⊢
    obtain ⟨htouch, hsigned⟩ := signed_foreign h ht hnd hu (runs_within.mp hr)
    obtain ⟨x, hx, -⟩ := hsigned _ List.mem_cons_self
    exact ⟨htouch, List.forall_mem_singleton.mpr ⟨x, hx⟩, hsigned⟩

lemma signed_object : ∀ {d : ClassDecl} {c c' : Context}, c.Arranged L →
    (∀ p ∈ (Decl.object d).all.flatMap Decl.tags, p ∈ L) →
    ((Decl.object d).all.flatMap Decl.signature).Nodup →
    Untyped L ((Decl.object d).all.flatMap Decl.signature) c → Runs (object .fresh d) c () c' →
      Touches L ((Decl.object d).all.flatMap Decl.signature) c c' ∧
        Signed L ((Decl.object d).all.flatMap Decl.heads) c'
  | ⟨node, name, base, members⟩, c, c', h, ht, hnd, hu, hr => by
    simp only [Decl.all, ClassDecl.all, List.flatMap_cons] at ht hnd hu ⊢
    obtain ⟨hown, hmembers⟩ := List.forall_mem_append.mp ht
    obtain ⟨htag, hbase⟩ := List.forall_mem_cons.mp hown
    obtain ⟨hnot, hnd⟩ := List.nodup_cons.mp hnd
    obtain ⟨hnd1, hnd2, hdisjoint⟩ := List.nodup_append'.mp hnd
    obtain ⟨hnot1, hnot2⟩ := not_or.mp (mt List.mem_append.mpr hnot)
    have hkeys := keys_of_tags (Decl.flatMap_tags_fst _) hmembers
    have hkeysb := keys_of_tags (TypeExpr.tags?_fst _) hbase
    simp only [object, runs_bind] at hr
    obtain ⟨_, c1, hdecl, hr⟩ := hr
    have h1 : Touches L [] c c1 := h.touches_declare (fun _ => htag) hdecl
    obtain ⟨c2, c3, henter, hb, rfl⟩ := runs_bracket.mp hr
    have h2 : Touches L [node.id] c1 c2 :=
      h1.arranged.touches_enter (List.mem_singleton_self _) henter
    simp only [runs_bind, runs_get, Check.runs_setShape] at hb
    obtain ⟨_, _, ⟨rfl, rfl⟩, b, c4, hb, s, c5, hset, hfields⟩ := hb
    have hu2 : Untyped L (TypeExpr.nodes? base ++ (Decl.allOf members).flatMap Decl.signature) c2 :=
      ((hu.mono fun _ => List.mem_cons_of_mem _).touches h1 (by simp)).touches h2
        (by simpa using hnot)
    obtain ⟨h4, hbase'⟩ := signed_baseType h2.arranged hbase hnd1
      (hu2.mono fun _ => List.mem_append_left _) hb
    have h5 : Touches L [node.id] c4 c5 :=
      h4.arranged.touches_setNominal htag (List.mem_singleton_self _) rfl hset
    have hget := h4.arranged.get_of_setShape (mem_keys htag) hset
    have hholds : (Layer.object (base.map (·.node.id)) name.name []).Holds L c5 node.id s := by
      refine ⟨by rw [hget]; rfl, fun _ => ⟨_, b, [], ?_, hbase'.touches h5, .nil, hget⟩⟩
      rw [scopeOf?_of_setShape hset, h4.scopeOf node.id (mem_keys htag) hnot1]
      exact scopeOf?_of_enter henter
    have hu5 : Untyped L ((Decl.allOf members).flatMap Decl.signature) c5 :=
      ((hu2.mono fun _ => List.mem_append_right _).touches h4 hdisjoint).touches h5
        (by simpa using hnot2)
    obtain ⟨h6, hholds6, hsigned⟩ := signed_fields h5.arranged htag (nodeType?_of_setShape hset)
      hholds hmembers (List.nodup_cons.mpr ⟨hnot2, hnd2⟩) hu5 hfields
    have h7 : Touches L [] c3 (ScopeMode.fresh.leave c3) := h6.arranged.touches_leave _
    have hall := (h1.trans h2).trans ((h4.trans h5).trans (h6.trans h7))
    refine ⟨hall.mono fun m hm => ?_, ?_⟩
    · simp only [Decl.signature, List.nil_append, List.append_nil, List.mem_cons,
        List.mem_append] at hm ⊢
      tauto
    have hsigned3 : Signed L ((Decl.object ⟨node, name, base, members⟩).heads ++
        (Decl.allOf members).flatMap Decl.heads) c3 := by
      refine List.forall_mem_append.mpr ⟨List.forall_mem_singleton.mpr ?_, hsigned⟩
      exact ⟨s, h6.nodeType _ _ (nodeType?_of_setShape hset), htag, by simpa using hholds6⟩
    have hconfined := (Decl.object ⟨node, name, base, members⟩).confined_heads.append
      (Confined.flatMap fun d (_ : d ∈ Decl.allOf members) => d.confined_heads)
    refine hsigned3.apart h6.arranged hconfined ?_ h7 (by simp) (.inr (by simp))
    exact List.forall_mem_cons.mpr ⟨mem_keys htag, List.forall_mem_append.mpr ⟨hkeysb, hkeys⟩⟩

/-- The members of a class, which become its fields one after the other. -/
lemma signed_fields {n : NodeId} {s : Slot} {base : Option NodeId} {name : String} :
    ∀ {ds : List Decl} {fields : List (String × NodeId)} {c c' : Context}, c.Arranged L →
      (n, Tag.type name) ∈ L → c.nodeType? n = some s →
      (Layer.object base name fields).Holds L c n s →
      (∀ p ∈ (Decl.allOf ds).flatMap Decl.tags, p ∈ L) →
      (n :: (Decl.allOf ds).flatMap Decl.signature).Nodup →
      Untyped L ((Decl.allOf ds).flatMap Decl.signature) c →
      Runs (Collect.fields .fresh s ds) c () c' →
        Touches L (n :: (Decl.allOf ds).flatMap Decl.signature) c c' ∧
          (Layer.object base name (fields ++ Decl.fieldNodes ds)).Holds L c' n s ∧
          Signed L ((Decl.allOf ds).flatMap Decl.heads) c'
  | [], fields, c, c', h, _, _, hholds, _, _, _, hr => by
    simp only [Collect.fields, runs_pure] at hr
    obtain ⟨-, rfl⟩ := hr
    exact ⟨.refl h, by simpa [Decl.fieldNodes] using hholds, by simp [Decl.allOf, Signed]⟩
  | d :: rest, fields, c, c', h, htag, hn, hholds, ht, hnd, hu, hr => by
    simp only [Decl.allOf, List.flatMap_append] at ht hnd hu ⊢
    obtain ⟨ht1, ht2⟩ := List.forall_mem_append.mp ht
    obtain ⟨hnot, hnd⟩ := List.nodup_cons.mp hnd
    obtain ⟨hnd1, hnd2, hdisjoint⟩ := List.nodup_append'.mp hnd
    obtain ⟨hnot1, hnot2⟩ := not_or.mp (mt List.mem_append.mpr hnot)
    have hkeys1 := keys_of_tags (Decl.flatMap_tags_fst _) ht1
    have hconfined : Confined (d.all.flatMap Decl.signature) (d.all.flatMap Decl.heads) :=
      .flatMap fun d' _ => d'.confined_heads
    have hlate : ∀ l ∈ d.all.flatMap Decl.heads, l.2.isLate = false := fun l hl => by
      obtain ⟨d', -, hl⟩ := List.mem_flatMap.mp hl
      exact d'.isLate_heads l hl
    simp only [Collect.fields, runs_bind] at hr
    obtain ⟨_, c1, hdecl, _, c2, hadd, hr⟩ := hr
    obtain ⟨h1, htyped, hsigned1⟩ :=
      signed_decl h ht1 hnd1 (hu.mono fun _ => List.mem_append_left _) hdecl
    have hsuits : (Layer.object base name fields).Suits L n := htag
    have hholds1 := hholds.touches h1 h hsuits hn hnot1 (by simp [Layer.sources])
      (by simp [Layer.isLate])
    obtain ⟨h2, hholds2⟩ := signed_addField h1.arranged htag (h1.nodeType n s hn) htyped
      hholds1 hadd
    have hsigned2 := hsigned1.apart h1.arranged hconfined hkeys1 h2
      (by simpa using hnot1) (.inl hlate)
    have hu2 : Untyped L ((Decl.allOf rest).flatMap Decl.signature) c2 :=
      ((hu.mono fun _ => List.mem_append_right _).touches h1 hdisjoint).touches h2
        (by simpa using hnot2)
    obtain ⟨h3, hholds3, hsigned3⟩ := signed_fields h2.arranged htag
      (h2.nodeType n s (h1.nodeType n s hn)) hholds2 ht2 (List.nodup_cons.mpr ⟨hnot2, hnd2⟩) hu2 hr
    refine ⟨((h1.trans h2).trans h3).mono fun m hm => ?_, ?_, ?_⟩
    · simp only [List.mem_cons, List.mem_append, List.mem_nil_iff, or_false] at hm ⊢
      tauto
    · rwa [List.append_assoc, Decl.fieldNodes_append] at hholds3
    · exact (hsigned2.apart h2.arranged hconfined hkeys1 h3
        (List.disjoint_cons_right.mpr ⟨hnot1, hdisjoint⟩) (.inl hlate)).append hsigned3

end

lemma signed_decls : ∀ {ds : List Decl} {c c' : Context}, c.Arranged L →
    (∀ p ∈ (Decl.allOf ds).flatMap Decl.tags, p ∈ L) →
    ((Decl.allOf ds).flatMap Decl.signature).Nodup →
    Untyped L ((Decl.allOf ds).flatMap Decl.signature) c → Runs (decls .fresh ds) c () c' →
      Touches L ((Decl.allOf ds).flatMap Decl.signature) c c' ∧
        Signed L ((Decl.allOf ds).flatMap Decl.heads) c'
  | [], c, c', h, _, _, _, hr => by
    simp only [decls, runs_pure] at hr
    obtain ⟨-, rfl⟩ := hr
    exact ⟨.refl h, by simp [Decl.allOf, Signed]⟩
  | d :: rest, c, c', h, ht, hnd, hu, hr => by
    simp only [Decl.allOf, List.flatMap_append] at ht hnd hu ⊢
    obtain ⟨ht1, ht2⟩ := List.forall_mem_append.mp ht
    obtain ⟨hnd1, hnd2, hdisjoint⟩ := List.nodup_append'.mp hnd
    have hkeys1 := keys_of_tags (Decl.flatMap_tags_fst _) ht1
    simp only [decls, runs_bind] at hr
    obtain ⟨_, c1, hdecl, hr⟩ := hr
    obtain ⟨h1, -, hsigned1⟩ :=
      signed_decl h ht1 hnd1 (hu.mono fun _ => List.mem_append_left _) hdecl
    have hu1 := (hu.mono fun _ => List.mem_append_right _).touches h1 hdisjoint
    obtain ⟨h2, hsigned2⟩ := signed_decls h1.arranged ht2 hnd2 hu1 hr
    refine ⟨h1.trans h2, (hsigned1.apart h1.arranged
      (.flatMap fun d' _ => d'.confined_heads) hkeys1 h2 hdisjoint (.inl ?_)).append hsigned2⟩
    intro l hl
    obtain ⟨d', -, hl⟩ := List.mem_flatMap.mp hl
    exact d'.isLate_heads l hl

end Collect

/-- Only classes and enums declare types. -/
lemma Decl.of_type_tag {name : String} (h : (n, Tag.type name) ∈ d.tags) :
    (∃ o, d = .object o ∧ n = o.id ∧ name = o.name.name) ∨
      ∃ e, d = .enum e ∧ n = e.id ∧ name = e.name.name := by
  have hplain : ∀ {T : List (NodeId × Tag)}, (∀ p ∈ T, p.2.isType = false) →
      (n, Tag.type name) ∉ T := fun hT hn => by cases hT _ hn
  cases d with
  | object o =>
    rcases List.mem_cons.mp h with h | h
    · cases h
      exact .inl ⟨o, rfl, rfl, rfl⟩
    · exact absurd h (hplain TypeExpr.isType_tags?)
  | enum e =>
    rcases List.mem_cons.mp h with h | h
    · cases h
      exact .inr ⟨e, rfl, rfl, rfl⟩
    · exact absurd h (hplain EnumItem.isType_tagsAll)
  | function | foreign =>
    exact absurd h (hplain (List.forall_mem_cons.mpr
      ⟨rfl, List.forall_mem_append.mpr ⟨Parameter.isType_tags, TypeExpr.isType_tags?⟩⟩))
  | var => exact absurd h (hplain (List.forall_mem_cons.mpr ⟨rfl, TypeExpr.isType_tags?⟩))

/-- Classes and enums have their names when a program has been collected. -/
lemma named_of_heads (h : Signed (ds.flatMap Decl.tags) (ds.flatMap Decl.heads) c) :
    c.Named (ds.flatMap Decl.tags) := by
  intro n name hn
  obtain ⟨d, hd, htag⟩ := List.mem_flatMap.mp hn
  have hmem : ∀ l ∈ d.heads, l ∈ ds.flatMap Decl.heads :=
    fun l hl => List.mem_flatMap.mpr ⟨d, hd, hl⟩
  rcases Decl.of_type_tag htag with ⟨o, rfl, rfl, rfl⟩ | ⟨e, rfl, rfl, rfl⟩
  · obtain ⟨x, hx, -, hholds⟩ := h _ (hmem _ (List.mem_singleton_self _))
    exact ⟨x, hx, hholds.1⟩
  · obtain ⟨x, hx, -, hholds⟩ := h _ (hmem _ (List.mem_singleton_self _))
    exact ⟨x, hx, hholds.1⟩

/-! ### Signatures -/

/-- The nodes that are resolved with the signature of a declaration. -/
def Decl.written : Decl → List NodeId
  | .object c => TypeExpr.nodes? c.base
  | .function f => f.parameters.flatMap Parameter.nodes ++ TypeExpr.nodes? f.returns
  | .var v => v.type.elim [] fun type => v.id :: type.nodes
  | .enum e => EnumItem.nodesAll e.items
  | .foreign _ => []

lemma Decl.confined_annotated (d : Decl) : Confined d.written d.annotated := by
  cases d with
  | object c => exact TypeExpr.confined_layers? false c.base
  | function f =>
    exact (Confined.flatMap fun p _ => p.confined_layers false).append
      (TypeExpr.confined_layers? false f.returns)
  | var v =>
    rcases v with ⟨_, _, _ | type, _⟩
    · exact .nil
    · refine .cons List.mem_cons_self ?_
        ((type.confined_layers false).mono fun _ => List.mem_cons_of_mem _)
      intro m hm
      rw [List.mem_singleton.mp hm]
      exact List.mem_cons_of_mem _ type.node_mem_nodes
  | enum e =>
    exact Confined.of_fst (EnumItem.layersAll_fst false e.items)
      (EnumItem.isWritten_layersAll false)
  | foreign f => exact .nil

lemma Decl.written_sublist (d : Decl) : d.written.Sublist d.signature := by
  cases d with
  | object | function | enum => exact List.sublist_cons_self _ _
  | var v => rcases v with ⟨_, _, _ | type, _⟩ <;> simp [written, signature, TypeExpr.nodes?]
  | foreign => exact List.nil_sublist _

lemma Decl.flatMap_written_sublist (ds : List Decl) :
    (ds.flatMap Decl.written).Sublist (ds.flatMap Decl.signature) := by
  induction ds with
  | nil => exact .refl _
  | cons d rest ih => exact d.written_sublist.append ih

/-- What has been collected is not resolved again with the signatures. -/
lemma Decl.heads_apart (hnd : (ds.flatMap Decl.signature).Nodup) :
    ∀ l ∈ ds.flatMap Decl.heads, l.1 ∉ ds.flatMap Decl.written ∧
      ∀ m ∈ l.2.sources, m ∉ ds.flatMap Decl.written := by
  intro l hl
  obtain ⟨d, hd, hl⟩ := List.mem_flatMap.mp hl
  obtain ⟨hown, hpairs⟩ := List.nodup_flatMap.mp hnd
  have hsymm : Std.Symm (Function.onFun List.Disjoint Decl.signature) :=
    ⟨fun _ _ h _ hx hy => h hy hx⟩
  -- a node of two signatures would be the node of one
  have hsame : ∀ m ∈ d.signature, m ∉ d.written → m ∉ ds.flatMap Decl.written := by
    intro m hm hnot hmem
    obtain ⟨d', hd', hm'⟩ := List.mem_flatMap.mp hmem
    by_cases heq : d = d'
    · exact hnot (heq ▸ hm')
    · exact hpairs.forall hd hd' heq hm (d'.written_sublist.subset hm')
  have hnot : l.1 ∉ d.written ∧ ∀ m ∈ l.2.sources, m ∉ d.written := by
    have hnd := hown d hd
    cases d with
    | object | function | enum =>
      cases List.mem_singleton.mp hl
      exact ⟨(List.nodup_cons.mp hnd).1, by simp [Layer.sources]⟩
    | var => simp [heads] at hl
    | foreign => simp [written]
  obtain ⟨h1, h2⟩ := d.confined_heads l hl
  exact ⟨hsame _ h1 hnot.1, fun m hm => hsame m (h2 m hm) (hnot.2 m hm)⟩

/-- Nodes that are resolved with a signature declare no types. -/
lemma Decl.exists_tag_of_written (hn : n ∈ d.written) :
    ∃ t : Tag, (n, t) ∈ d.tags ∧ t.isType = false := by
  have haux : ∀ {T : List (NodeId × Tag)} {ns : List NodeId}, T.map Prod.fst = ns →
      (∀ p ∈ T, p.2.isType = false) → (∀ p ∈ T, p ∈ d.tags) → n ∈ ns →
        ∃ t : Tag, (n, t) ∈ d.tags ∧ t.isType = false := by
    rintro T ns rfl htype hT hn
    obtain ⟨⟨n', t⟩, hp, rfl⟩ := List.mem_map.mp hn
    exact ⟨t, hT _ hp, htype _ hp⟩
  cases d with
  | object c =>
    exact haux (TypeExpr.tags?_fst c.base) TypeExpr.isType_tags?
      (fun _ => List.mem_cons_of_mem _) hn
  | function f =>
    refine haux (T := f.parameters.flatMap Parameter.tags ++ TypeExpr.tags? f.returns) ?_ ?_
      (fun _ => List.mem_cons_of_mem _) hn
    · rw [List.map_append, Parameter.flatMap_tags_fst, TypeExpr.tags?_fst]
      rfl
    · exact List.forall_mem_append.mpr ⟨Parameter.isType_tags, TypeExpr.isType_tags?⟩
  | var v =>
    rcases v with ⟨node, name, _ | type, value⟩
    · simp [written] at hn
    · refine haux (T := (node.id, .variable) :: type.tags) ?_ ?_ (fun _ h => h) hn
      · rw [List.map_cons, TypeExpr.tags_fst]
        rfl
      · exact List.forall_mem_cons.mpr ⟨rfl, TypeExpr.isType_tags⟩
  | enum e =>
    exact haux (EnumItem.tagsAll_fst e.items) EnumItem.isType_tagsAll
      (fun _ => List.mem_cons_of_mem _) hn
  | foreign f => simp [written] at hn

lemma Decl.flatMap_written_plain (hL : (L.map Prod.fst).Nodup)
    (ht : ∀ p ∈ ds.flatMap Decl.tags, p ∈ L) :
    ∀ n ∈ ds.flatMap Decl.written, ∀ name, (n, Tag.type name) ∉ L := by
  intro n hn name hname
  obtain ⟨d, hd, hn⟩ := List.mem_flatMap.mp hn
  obtain ⟨t, htag, htype⟩ := Decl.exists_tag_of_written hn
  rw [tag_unique hL (ht _ (List.mem_flatMap.mpr ⟨d, hd, htag⟩)) hname] at htype
  cases htype

lemma Decl.flatMap_written_keys (ht : ∀ p ∈ ds.flatMap Decl.tags, p ∈ L) :
    ∀ n ∈ ds.flatMap Decl.written, n ∈ L.map Prod.fst := by
  intro n hn
  obtain ⟨d, hd, hn⟩ := List.mem_flatMap.mp hn
  obtain ⟨t, htag, -⟩ := Decl.exists_tag_of_written hn
  exact mem_keys (ht _ (List.mem_flatMap.mpr ⟨d, hd, htag⟩))

namespace Resolve

variable {L : List (NodeId × Tag)}

section

variable {c c' : Context}

lemma signed_baseSignature {base : Option TypeExpr} (h : c.Arranged L) (hc : c.Named L)
    (ht : ∀ p ∈ TypeExpr.tags? base, p ∈ L) (hnd : (TypeExpr.nodes? base).Nodup)
    (hr : Runs (baseSignature base) c () c') :
    Touches L (TypeExpr.nodes? base) c c' ∧ SameScopes c c' ∧
      Signed L (TypeExpr.layers? false base) c' := by
  cases base with
  | none =>
    simp only [baseSignature, runs_pure] at hr
    obtain ⟨-, rfl⟩ := hr
    exact ⟨.refl h, Std.Refl.refl c, by simp [TypeExpr.layers?, Signed]⟩
  | some type =>
    simp only [baseSignature, runs_bind, Check.runs_types] at hr
    obtain ⟨x, c1, hx, _, _, ⟨rfl, rfl⟩, hr⟩ := hr
    obtain rfl : c1 = c' := by
      split at hr
      · simp at hr
      · exact (runs_pure.mp hr).2
    obtain ⟨h1, hsigned⟩ := TypeExpr.signed_resolve h ht hnd (.inl ⟨hc, rfl⟩) hx
    exact ⟨h1, (TypeExpr.within_resolve _ _).of_runs hx, hsigned rfl⟩

/-- An annotated declaration, when every class and enum has been collected. -/
lemma signed_declared {n : NodeId} {type : TypeExpr} {x : Slot} (h : c.Arranged L) (hc : c.Named L)
    (hn : Private L n) (ht : ∀ p ∈ type.tags, p ∈ L) (hnd : (n :: type.nodes).Nodup)
    (hr : Runs (TypeExpr.resolveInto .strict n type) c x c') :
    Touches L (n :: type.nodes) c c' ∧ SameScopes c c' ∧
      Signed L ((n, .copy false type.node.id) :: type.layers false) c' := by
  obtain ⟨h1, hx, ⟨y, hy, hget⟩, hsigned⟩ :=
    TypeExpr.signed_resolveInto h hn ht hnd (.inl ⟨hc, rfl⟩) hr
  have hplain := not_type_of_tags h.nodup (TypeExpr.tags_fst _) ht TypeExpr.isType_tags
  have hc1 : c'.Named L :=
    hc.touches h h1 (List.forall_mem_cons.mpr ⟨hn.not_type h.nodup, hplain⟩)
  refine ⟨h1, (TypeExpr.within_resolveInto _ _ _).of_runs hr,
    TypeExpr.signed_copy hn (hsigned rfl) hx hy hget ?_⟩
  rw [hget]
  exact TypeExpr.known_of_signed (hsigned rfl) hc1 hy

lemma signed_parameterSignatures : ∀ {ps : List Parameter} {c c' : Context}, c.Arranged L →
    c.Named L → (∀ p ∈ ps.flatMap Parameter.tags, p ∈ L) → (ps.flatMap Parameter.nodes).Nodup →
    Runs (parameterSignatures ps) c () c' →
      Touches L (ps.flatMap Parameter.nodes) c c' ∧ SameScopes c c' ∧
        Signed L (ps.flatMap (Parameter.layers false)) c'
  | [], c, c', h, _, _, _, hr => by
    simp only [parameterSignatures, runs_pure] at hr
    obtain ⟨-, rfl⟩ := hr
    exact ⟨.refl h, Std.Refl.refl c, by simp [Signed]⟩
  | p :: rest, c, c', h, hc, ht, hnd, hr => by
    rw [List.flatMap_cons] at ht hnd
    obtain ⟨ht1, ht2⟩ := List.forall_mem_append.mp ht
    obtain ⟨htag, htype⟩ := List.forall_mem_cons.mp ht1
    obtain ⟨hnd1, hnd2, hdisjoint⟩ := List.nodup_append'.mp hnd
    have hkeys1 := keys_of_tags (Parameter.tags_fst _) ht1
    have hplain1 := not_type_of_tags h.nodup (Parameter.tags_fst _) ht1
      (List.forall_mem_cons.mpr ⟨rfl, TypeExpr.isType_tags⟩)
    have hplain2 := not_type_of_tags h.nodup
      (Parameter.flatMap_tags_fst _) ht2 Parameter.isType_tags
    simp only [parameterSignatures, runs_bind] at hr
    obtain ⟨x, c1, hx, hrest⟩ := hr
    obtain ⟨h1, hsame1, hsigned1⟩ := signed_declared h hc (.inl htag) htype hnd1 hx
    have hc1 := hc.touches h h1 hplain1
    obtain ⟨h2, hsame2, hsigned2⟩ := signed_parameterSignatures h1.arranged hc1 ht2 hnd2 hrest
    have hown : Signed L (p.layers false) c1 := hsigned1
    exact ⟨h1.trans h2, hsame1.trans hsame2, (hown.apart h1.arranged (p.confined_layers false)
      hkeys1 h2 hdisjoint (.inr hplain2)).append hsigned2⟩

/-- What is done in a scope that is opened again. -/
lemma signed_reopen {α : Type} {a : α} {kind : ScopeKind} {node : Node} {body : Check α}
    {ns : List NodeId} {ls : List (NodeId × Layer)} (hkind : kind ≠ .body)
    (hin : c.isInside .function = false) (h : c.Arranged L)
    (hbody : ∀ {id : ScopeId} {c1 c2 : Context}, c.scopeOf? node.id = some id →
      c1 = { c with stack := id :: c.stack } → c1.Arranged L → Runs body c1 a c2 →
        Touches L ns c1 c2 ∧ SameScopes c1 c2 ∧ Signed L ls c2)
    (hr : Runs (ScopeMode.reopen.inScope kind node body) c a c') :
    Touches L ns c c' ∧ SameScopes c c' ∧ Signed L ls c' := by
  obtain ⟨c1, c2, henter, hb, rfl⟩ := runs_bracket.mp hr
  obtain ⟨id, hid, hc1⟩ := runs_reopen hkind hin henter
  have h1 : Touches L [] c c1 := by
    rw [hc1]
    exact h.touches_scopes rfl rfl h.symbols fun _ _ _ => rfl
  obtain ⟨h2, hsame, hsigned⟩ := hbody hid hc1 h1.arranged hb
  have h3 : Touches L [] c2 (ScopeMode.reopen.leave c2) := h2.arranged.touches_leave _
  rw [hc1] at hsame
  refine ⟨by simpa using (h1.trans h2).trans h3, hsame.reopened, hsigned⟩

lemma signed_functionSignature {f : FunctionDecl} (hin : c.isInside .function = false)
    (h : c.Arranged L) (hc : c.Named L) (ht : ∀ p ∈ (Decl.function f).tags, p ∈ L)
    (hnd : (Decl.function f).written.Nodup) (hr : Runs (functionSignature .reopen f) c () c') :
    Touches L (Decl.function f).written c c' ∧ SameScopes c c' ∧
      Signed L (Decl.function f).annotated c' := by
  obtain ⟨htag, hrest⟩ := List.forall_mem_cons.mp ht
  obtain ⟨hps, hreturns⟩ := List.forall_mem_append.mp hrest
  obtain ⟨hnd1, hnd2, hdisjoint⟩ := List.nodup_append'.mp hnd
  have hkeys1 := keys_of_tags (Parameter.flatMap_tags_fst _) hps
  have hplain1 := not_type_of_tags h.nodup (Parameter.flatMap_tags_fst _) hps Parameter.isType_tags
  have hplain2 := not_type_of_tags h.nodup (TypeExpr.tags?_fst _) hreturns TypeExpr.isType_tags?
  refine signed_reopen (by simp) hin h (fun {id c1 c2} _ hc1 h1 hb => ?_) hr
  have hnamed : c1.Named L := by
    rw [hc1]
    exact hc
  simp only [runs_bind] at hb
  obtain ⟨_, c3, hps', hb⟩ := hb
  obtain ⟨h3, hsame3, hsigned3⟩ := signed_parameterSignatures h1 hnamed hps hnd1 hps'
  have hnamed3 := hnamed.touches h1 h3 hplain1
  obtain ⟨h4, hsame4, hsigned4⟩ : Touches L (TypeExpr.nodes? f.returns) c3 c2 ∧
      SameScopes c3 c2 ∧ Signed L (TypeExpr.layers? false f.returns) c2 := by
    rcases hf : f.returns with _ | type
    · rw [hf] at hb
      obtain ⟨-, rfl⟩ := runs_pure.mp hb
      exact ⟨.refl h3.arranged, Std.Refl.refl c3, by simp [TypeExpr.layers?, Signed]⟩
    · rw [hf] at hb hreturns hnd2
      simp only [runs_bind, runs_pure] at hb
      obtain ⟨x, _, hx, -, rfl⟩ := hb
      obtain ⟨h4, hsigned4⟩ :=
        TypeExpr.signed_resolve h3.arranged hreturns hnd2 (.inl ⟨hnamed3, rfl⟩) hx
      exact ⟨h4, (TypeExpr.within_resolve _ _).of_runs hx, hsigned4 rfl⟩
  refine ⟨h3.trans h4, hsame3.trans hsame4, (hsigned3.apart h3.arranged
    (.flatMap fun p _ => p.confined_layers false) hkeys1 h4 hdisjoint
    (.inr hplain2)).append hsigned4⟩

lemma signed_variableSignature {v : VariableDecl} (h : c.Arranged L) (hc : c.Named L)
    (ht : ∀ p ∈ (Decl.var v).tags, p ∈ L) (hnd : (Decl.var v).written.Nodup)
    (hr : Runs (variableSignature v) c () c') :
    Touches L (Decl.var v).written c c' ∧ SameScopes c c' ∧
      Signed L (Decl.var v).annotated c' := by
  obtain ⟨htag, htype⟩ := List.forall_mem_cons.mp ht
  rcases v with ⟨node, name, _ | type, value⟩
  · obtain ⟨-, rfl⟩ := runs_pure.mp hr
    exact ⟨.refl h, Std.Refl.refl c, by simp [Decl.annotated, Signed]⟩
  · simp only [variableSignature, runs_bind, runs_pure] at hr
    obtain ⟨x, _, hx, -, rfl⟩ := hr
    exact signed_declared h hc (.inr htag) htype hnd hx

lemma signed_enumSignature {e : EnumDecl} (hin : c.isInside .function = false) (h : c.Arranged L)
    (hc : c.Named L) (ht : ∀ p ∈ (Decl.enum e).tags, p ∈ L) (hnd : (Decl.enum e).written.Nodup)
    (hr : Runs (enumSignature .reopen e) c () c') :
    Touches L (Decl.enum e).written c c' ∧ SameScopes c c' ∧
      Signed L (Decl.enum e).annotated c' := by
  obtain ⟨-, hitems⟩ := List.forall_mem_cons.mp ht
  refine signed_reopen (by simp) hin h (fun {id c1 c2} _ hc1 h1 hb => ?_) hr
  have hnamed : c1.Named L := by
    rw [hc1]
    exact hc
  simp only [runs_bind, runs_pure] at hb
  obtain ⟨slots, _, hslots, -, rfl⟩ := hb
  obtain ⟨h2, -, hsigned⟩ :=
    TypeExpr.signed_resolveItems h1 hitems hnd (.inl ⟨hnamed, rfl⟩) hslots
  exact ⟨h2, (TypeExpr.within_resolveItems _ _).of_runs hslots, hsigned rfl⟩

end

mutual

/-- **Resolving the signature of a declaration** gives every annotation in it its layer. -/
lemma signed_signature :
    ∀ {d : Decl} {c c' : Context} {lo k : ScopeId},
    c.isInside .function = false → d.Scoped c lo k → c.Arranged L → c.Named L →
    (∀ p ∈ d.all.flatMap Decl.tags, p ∈ L) → (d.all.flatMap Decl.written).Nodup →
    Runs (signature .reopen d) c () c' →
      Touches L (d.all.flatMap Decl.written) c c' ∧ SameScopes c c' ∧
        Signed L (d.all.flatMap Decl.annotated) c'
  | .object o, c, c', lo, k, hin, hs, h, hc, ht, hnd, hr =>
    signed_classSignature hin hs h hc ht hnd (runs_within.mp hr)
  | .function f, c, c', lo, k, hin, _, h, hc, ht, hnd, hr => by
    simp only [Decl.all, List.flatMap_singleton] at ht hnd ⊢
    exact signed_functionSignature hin h hc ht hnd (runs_within.mp hr)
  | .var v, c, c', lo, k, _, _, h, hc, ht, hnd, hr => by
    simp only [Decl.all, List.flatMap_singleton] at ht hnd ⊢
    exact signed_variableSignature h hc ht hnd (runs_within.mp hr)
  | .enum e, c, c', lo, k, hin, _, h, hc, ht, hnd, hr => by
    simp only [Decl.all, List.flatMap_singleton] at ht hnd ⊢
    exact signed_enumSignature hin h hc ht hnd (runs_within.mp hr)
  | .foreign f, c, c', lo, k, _, _, h, _, _, _, hr => by
    obtain ⟨-, rfl⟩ := runs_pure.mp hr
    exact ⟨.refl h, Std.Refl.refl c, by simp [Decl.all, Decl.annotated, Signed]⟩

lemma signed_classSignature :
    ∀ {o : ClassDecl} {c c' : Context} {lo k : ScopeId},
    c.isInside .function = false → o.Scoped c lo k → c.Arranged L → c.Named L →
    (∀ p ∈ (Decl.object o).all.flatMap Decl.tags, p ∈ L) →
    ((Decl.object o).all.flatMap Decl.written).Nodup → Runs (classSignature .reopen o) c () c' →
      Touches L ((Decl.object o).all.flatMap Decl.written) c c' ∧ SameScopes c c' ∧
        Signed L ((Decl.object o).all.flatMap Decl.annotated) c'
  | ⟨node, name, base, members⟩, c, c', lo, k, hin, ⟨id, hid, hall⟩, h, hc, ht, hnd, hr => by
    simp only [Decl.all, ClassDecl.all, List.flatMap_cons] at ht hnd ⊢
    obtain ⟨hown, hmembers⟩ := List.forall_mem_append.mp ht
    obtain ⟨-, hbase⟩ := List.forall_mem_cons.mp hown
    obtain ⟨hnd1, hnd2, hdisjoint⟩ := List.nodup_append'.mp hnd
    have hkeys1 := keys_of_tags (TypeExpr.tags?_fst _) hbase
    have hplain1 := not_type_of_tags h.nodup (TypeExpr.tags?_fst _) hbase TypeExpr.isType_tags?
    have hplain2 := Decl.flatMap_written_plain h.nodup hmembers
    refine signed_reopen (by simp) hin h (fun {id' c1 c2} hid' hc1 h1 hb => ?_) hr
    obtain rfl : id' = id := Option.some.inj (hid'.symm.trans hid.scopeOf)
    have hnamed : c1.Named L := by
      rw [hc1]
      exact hc
    have hin1 : c1.isInside .function = false := by
      rw [hc1]
      exact isInside_push hin hid.scope (by simp)
    simp only [runs_bind] at hb
    obtain ⟨_, c3, hb, hms⟩ := hb
    obtain ⟨h3, hsame3, hsigned3⟩ := signed_baseSignature h1 hnamed hbase hnd1 hb
    have hall3 : Decl.ScopedAll c3 lo id' members := by
      rw [hc1] at hsame3
      exact hall.same le_rfl hsame3.scopes hsame3.nodeScopes
    obtain ⟨h4, hsame4, hsigned4⟩ := signed_signatures (hsame3.isInside _ |>.trans hin1) hall3
      h3.arranged (hnamed.touches h1 h3 hplain1) hmembers hnd2 hms
    exact ⟨h3.trans h4, hsame3.trans hsame4, (hsigned3.apart h3.arranged
      (TypeExpr.confined_layers? false base) hkeys1 h4 hdisjoint (.inr hplain2)).append
      hsigned4⟩

lemma signed_signatures :
    ∀ {ds : List Decl} {c c' : Context} {lo k : ScopeId},
    c.isInside .function = false → Decl.ScopedAll c lo k ds → c.Arranged L → c.Named L →
    (∀ p ∈ (Decl.allOf ds).flatMap Decl.tags, p ∈ L) →
    ((Decl.allOf ds).flatMap Decl.written).Nodup → Runs (signatures .reopen ds) c () c' →
      Touches L ((Decl.allOf ds).flatMap Decl.written) c c' ∧ SameScopes c c' ∧
        Signed L ((Decl.allOf ds).flatMap Decl.annotated) c'
  | [], c, c', lo, k, _, _, h, _, _, _, hr => by
    obtain ⟨-, rfl⟩ := runs_pure.mp hr
    exact ⟨.refl h, Std.Refl.refl c, by simp [Decl.allOf, Signed]⟩
  | d :: rest, c, c', lo, k, hin, ⟨hd, hall⟩, h, hc, ht, hnd, hr => by
    simp only [Decl.allOf, List.flatMap_append] at ht hnd ⊢
    obtain ⟨ht1, ht2⟩ := List.forall_mem_append.mp ht
    obtain ⟨hnd1, hnd2, hdisjoint⟩ := List.nodup_append'.mp hnd
    simp only [signatures, runs_bind] at hr
    obtain ⟨_, c1, hr1, hrest⟩ := hr
    obtain ⟨h1, hsame1, hsigned1⟩ := signed_signature hin hd h hc ht1 hnd1 hr1
    have hall1 : Decl.ScopedAll c1 lo k rest := hall.same le_rfl hsame1.scopes hsame1.nodeScopes
    obtain ⟨h2, hsame2, hsigned2⟩ := signed_signatures ((hsame1.isInside _).trans hin) hall1
      h1.arranged (hc.touches h h1 (Decl.flatMap_written_plain h.nodup ht1)) ht2 hnd2 hrest
    exact ⟨h1.trans h2, hsame1.trans hsame2, (hsigned1.apart h1.arranged
      (.flatMap fun d' _ => d'.confined_annotated) (Decl.flatMap_written_keys ht1) h2 hdisjoint
      (.inr (Decl.flatMap_written_plain h.nodup ht2))).append hsigned2⟩

end

end Resolve

end Sema
