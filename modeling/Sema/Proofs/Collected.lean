import Sema.Proofs.Arranged
import Sema.Proofs.Operations
import Sema.Proofs.Scopes

/-!
How the first walk goes about a context, and the second one about signatures. Whatever they do is a
sequence of operations that are given existing handles, for every program and from every well-formed
context. For a program whose nodes stand for one thing each they keep the context in order: every
node of a signature gets a slot, no other node gets one, and slots are shared only by the names of
classes and enums.
-/

namespace Sema

open Sema.Action Context

open Cause.Regular (ordinary)

namespace Context

variable {o : Prop} {L T T' : List (NodeId × Tag)} {c c1 c' : Context} {ms ns : List NodeId}
  {l : Location} {d n : NodeId} {t : Tag} {name : String} {x y : Slot} {shape : Shape}

/-! ### Contexts that are in order -/

/-- The context of a program whose signatures have the nodes in `L`. -/
structure Orderly (L : List (NodeId × Tag)) (c : Context) : Prop extends Arranged L c where
  keys : ∀ n x, c.nodeType? n = some x → n ∈ L.map Prod.fst
  declared : ∀ id sc, c.scope? id = some sc → ∀ s ∈ sc.symbols, s.declaration ∈ L.map Prod.fst
  objects : ∀ id sc, c.scope? id = some sc → sc.kind = .object →
    ∃ name, (sc.node, Tag.type name) ∈ L
  shapes : ∀ x, c.Admits L (c.types.get x)

lemma orderly_empty (hL : (L.map Prod.fst).Nodup) : Context.Orderly L {} := by
  refine ⟨⟨hL, ?_, ?_, ?_, ?_, ?_⟩, ?_, ?_, ?_, fun x => ?_⟩
  · intro n x _ hx
    cases hx
  · intro id sc hsc
    simp [scope?] at hsc
  · intro m n x _ _ _ hx
    cases hx
  · intro d name n x _ _ hx
    cases hx
  · rintro name x ⟨d, -, hx⟩
    cases hx
  · intro n x hx
    cases hx
  · intro id sc hsc
    simp [scope?] at hsc
  · intro id sc hsc
    simp [scope?] at hsc
  · rw [TypeStore.get_eq_unknown _ (Nat.zero_le x)]
    exact admits_unknown

namespace Orderly

lemma typed (h : c.Orderly L) (n : NodeId) (x : Slot) (hx : c.nodeType? n = some x) :
    n ∈ L.map Prod.fst ∧ x < c.types.size :=
  ⟨h.keys n x hx, h.lt n x (h.keys n x hx) hx⟩

lemma held_clear (h : c.Orderly L) (hx : c.Held L x) : c.Clear L x := by
  obtain ⟨n, t, hn, ht, hnx⟩ := hx
  refine ⟨(h.typed n x hnx).2, fun v hv hvx => ?_⟩
  obtain rfl := h.private_own (.inr hv) hvx (mem_keys hn) hnx
  exact ht (h.tag_unique hn hv)

lemma admits (h : c.Orderly L) (hg : Grows (c.Admits L) c c') (x : Slot) :
    c.Admits L (c'.types.get x) := by
  rcases hg.shapes x with hx | ⟨y, hy⟩
  · exact hx
  · exact hy ▸ h.shapes y

/-- Only contents change, to shapes that may stand there. -/
lemma of_types (h : c.Orderly L) {ts : TypeStore}
    (hg : Grows (c.Admits L) c { c with types := ts })
    (hnominal : ∀ name x, TypeSlot L c name x →
      ts.get x = .unknown ∨ (ts.get x).nominalName? = some name) :
    ({ c with types := ts } : Context).Orderly L where
  toArranged := h.toArranged.of_types rfl rfl hg.size_le hnominal
  keys := h.keys
  declared := h.declared
  objects := h.objects
  shapes := fun x => (h.admits hg x).types hg.size_le

lemma set (h : c.Orderly L) (hs : c.Admits L shape)
    (hnominal : ∀ name, TypeSlot L c name x →
      shape = .unknown ∨ shape.nominalName? = some name) :
    ({ c with types := c.types.set x shape } : Context).Orderly L := by
  refine h.of_types (grows_set x hs) fun name y hy => ?_
  by_cases hxy : y = x
  · subst hxy
    rw [TypeStore.get_set _ _ _ _ (h.typeSlot_lt hy), if_pos rfl]
    exact hnominal name hy
  · rw [c.types.get_set_of_ne shape hxy]
    exact h.nominal name y hy

/-- A copy of one slot in another. -/
lemma assign (h : c.Orderly L) (hnominal : ∀ name, TypeSlot L c name x →
      c.types.get y = .unknown ∨ (c.types.get y).nominalName? = some name) :
    (c.assign x y).Orderly L := by
  unfold Context.assign TypeStore.assign
  split
  · exact h
  · exact h.set (h.shapes y) hnominal

lemma assign_private (h : c.Orderly L) (hn : Private L n) (hx : c.nodeType? n = some x) :
    (c.assign x y).Orderly L :=
  h.assign fun name hname => absurd hname (h.private_not_type hn hx name)

lemma alloc (h : c.Orderly L) (hs : c.Admits L shape) : (c.alloc shape).2.Orderly L :=
  h.of_types (grows_alloc hs) fun name x hx => by
    rw [TypeStore.get_alloc_of_lt _ _ (h.typeSlot_lt hx)]
    exact h.nominal name x hx

/-- Nodes of signatures get slots. -/
lemma of_touches (h : c.Orderly L) (ht : Touches L [n] c c') (hn : n ∈ L.map Prod.fst)
    (hsame : SameScopes c c') (hg : Grows (c.Admits L) c c') : c'.Orderly L := by
  refine ⟨ht.arranged, fun m x hx => ?_, ?_, ?_, fun x => ?_⟩
  · rcases hm : c.nodeType? m with _ | y
    · rcases (ht.fresh m x hm hx).1 with hm | ⟨name, hm⟩
      · rwa [List.mem_singleton.mp hm]
      · exact mem_keys hm
    · exact h.keys m y hm
  · simpa only [scope?, hsame.scopes] using h.declared
  · simpa only [scope?, hsame.scopes] using h.objects
  · have hadmits := h.admits hg x
    refine ⟨fun y hy => (hadmits.handles y hy).trans_le ht.size_le, fun y hy v hv hvy => ?_⟩
    rcases hvx : c.nodeType? v with _ | z
    · -- a variable gets a new slot
      rcases (ht.fresh v y hvx hvy).2 with hle | ⟨name, hname⟩
      · exact absurd (hadmits.part_lt hy) (Nat.not_lt.mpr hle)
      · exact ht.arranged.private_not_type (.inr hv) hvy name (hname.touches ht)
    · obtain rfl := Option.some.inj ((ht.nodeType v z hvx).symm.trans hvy)
      exact hadmits.parts z hy v hv hvx

/-- The shape of a node that is no name. -/
lemma setShape (h : c.Orderly L) (ht : (n, t) ∈ L) (hs : c.Admits L shape)
    (htag : t = .plain ∨ ∃ name, t = .type name ∧ shape.nominalName? = some name) :
    (c.setShape n shape).2.Orderly L := by
  refine h.of_touches ?_ (mem_keys ht) (Retypes.setShape trivial) (grows_setShape hs)
  rcases htag with rfl | ⟨name, rfl, hname⟩
  · exact h.touches_setShape ht (List.mem_singleton_self n) rfl
  · exact h.touches_setNominal ht (List.mem_singleton_self n) hname rfl

lemma slotOf (h : c.Orderly L) (ht : (n, t) ∈ L) : (c.slotOf n).2.Orderly L :=
  h.of_touches (h.touches_slotOf ht (.inl (List.mem_singleton_self n)) rfl) (mem_keys ht)
    (Retypes.slotOf n) (grows_slotOf n)

/-- An annotation that is the name of a class or an enum. -/
lemma bind (h : c.Orderly L) (ht : (n, Tag.name name) ∈ L) (hd : (d, Tag.type name) ∈ L)
    (hdy : c.nodeType? d = some y) : (c.bind n y).2.Orderly L := by
  rcases hn : c.nodeType? n with _ | z
  · exact h.of_touches (h.touches_bind ht (List.mem_singleton_self n) hd hdy (.inr hn)
      rfl) (mem_keys ht) (Retypes.bind n y) (grows_bind n y)
  · rw [bind_of_some hn]
    refine h.assign fun name' hname => ?_
    obtain rfl := h.name_eq ht hn hname
    exact h.nominal _ y ⟨d, hd, hdy⟩

/-- Scopes change, types do not. -/
lemma scopes (h : c.Orderly L) (ht : Touches L ns c c') (htypes : c'.types = c.types)
    (hnodes : c'.nodeTypes = c.nodeTypes)
    (hscopes : ∀ id sc, c'.scope? id = some sc →
      (∀ s ∈ sc.symbols, s.declaration ∈ L.map Prod.fst) ∧
      (sc.kind = .object → ∃ name, (sc.node, Tag.type name) ∈ L)) : c'.Orderly L := by
  have hnode : ∀ n, c'.nodeType? n = c.nodeType? n := fun n => by
    rw [nodeType?, hnodes]
    rfl
  refine ⟨ht.arranged, ?_, fun id sc hsc => (hscopes id sc hsc).1,
    fun id sc hsc => (hscopes id sc hsc).2, fun x => ⟨?_, ?_⟩⟩
  · simpa only [hnode] using h.keys
  · rw [htypes]
    exact (h.shapes x).handles
  · simpa only [hnode, htypes] using (h.shapes x).parts

/-- A name is entered, or nothing happens if it is taken. -/
lemma declare {kind : SymbolKind} (h : c.Orderly L) (hd : d ∈ L.map Prod.fst)
    (hk : kind = .type → (d, Tag.type name) ∈ L) :
    ((Check.declare name kind d l).outcome c).2.Orderly L := by
  rcases hr : (Check.declare name kind d l).outcome c with ⟨_ | _, c'⟩
  · rw [Check.outcome_declare, Check.addSymbol, outcome_bind, outcome_get] at hr
    dsimp only at hr
    split at hr
    · split at hr <;> cases hr
      exact h
    · cases hr
      exact h
  have ht : Touches L [] c c' := h.touches_declare hk hr
  obtain ⟨id, sc, sc', unique, -, hsc, hinsert, rfl⟩ := Check.runs_declare hr
  obtain ⟨hkind, hnode, hmem⟩ := Scope.insert?_cases hinsert
  refine h.scopes ht rfl rfl fun k sc1 hk1 => ?_
  rw [scope?_modifyScope] at hk1
  split at hk1
  · obtain ⟨-, -, rfl⟩ := Option.map_eq_some_iff.mp hk1
    refine ⟨fun s hs => ?_, fun hobj => ?_⟩
    · rcases hmem s hs with hs | rfl
      · exact h.declared id sc hsc s hs
      · exact hd
    · rw [hnode]
      exact h.objects id sc hsc (hkind.symm.trans hobj)
  · exact ⟨h.declared k sc1 hk1, h.objects k sc1 hk1⟩

lemma enter {mode : ScopeMode} {kind : ScopeKind} (h : c.Orderly L)
    (hk : kind = .object → ∃ name, (n, Tag.type name) ∈ L) :
    ((mode.enter kind n l).outcome c).2.Orderly L := by
  rcases hr : (mode.enter kind n l).outcome c with ⟨_ | _, c'⟩
  · rwa [ScopeMode.enter_fault hr]
  obtain ⟨htypes, hnodes, hscope⟩ := ScopeMode.runs_enter hr
  refine h.scopes (h.touches_enter (List.mem_singleton_self n) hr) htypes hnodes
    fun id sc hsc => ?_
  rcases hscope id sc hsc with hsc | ⟨hnil, hkind, hnode⟩
  · exact ⟨h.declared id sc hsc, h.objects id sc hsc⟩
  · refine ⟨by simp [hnil], fun hobj => ?_⟩
    rw [hnode]
    exact hk (hkind.symm.trans hobj)

lemma leave (mode : ScopeMode) (h : c.Orderly L) : (mode.leave c).Orderly L := by
  obtain ⟨htypes, hnodes, hscopes⟩ := mode.leave_frame c
  have htouches : Touches L [] c (mode.leave c) := h.touches_leave mode
  refine h.scopes htouches htypes hnodes fun id sc hsc => ?_
  rw [scope?, hscopes] at hsc
  exact ⟨h.declared id sc hsc, h.objects id sc hsc⟩

end Orderly

/-! ### Steps that heed the order -/

/-- Operations lead from `c` to `c'`, and where `o` holds, they keep a context in order. -/
structure Heeds (o : Prop) (L : List (NodeId × Tag)) (c c' : Context) : Prop
    extends Leads c c' where
  orderly : o → c.Orderly L → c'.Orderly L

namespace Heeds

lemma refl (hc : c.WellFormed) : Heeds o L c c := ⟨.refl hc, fun _ h => h⟩

lemma trans (h : Heeds o L c c1) (h' : Heeds o L c1 c') : Heeds o L c c' :=
  ⟨h.toLeads.trans h'.toLeads, fun ho hc => h'.orderly ho (h.orderly ho hc)⟩

instance : IsTrans Context (Heeds o L) := ⟨fun _ _ _ => trans⟩

end Heeds

/-- Where `o` holds, nodes are placed in `L` as they are in `T`. -/
def Placed (o : Prop) (L T : List (NodeId × Tag)) : Prop :=
  o → ∀ p ∈ T, p ∈ L

lemma placed_cons {p : NodeId × Tag} : Placed o L (p :: T) ↔ (o → p ∈ L) ∧ Placed o L T := by
  simp only [Placed, List.forall_mem_cons, imp_and]

lemma placed_append : Placed o L (T ++ T') ↔ Placed o L T ∧ Placed o L T' := by
  simp only [Placed, List.forall_mem_append, imp_and]

/-- A slot that exists and, where `o` holds, is not that of a variable. -/
def Usable (o : Prop) (L : List (NodeId × Tag)) (c : Context) (x : Slot) : Prop :=
  x < c.types.size ∧ (o → c.Orderly L → c.Clear L x)

/-- A slot that exists and, where `o` holds, is that of a node which is no variable. -/
def Given (o : Prop) (L : List (NodeId × Tag)) (c : Context) (x : Slot) : Prop :=
  x < c.types.size ∧ (o → c.Held L x)

lemma Given.usable (hx : c.Given o L x) : c.Usable o L x :=
  ⟨hx.1, fun ho h => h.held_clear (hx.2 ho)⟩

lemma Given.heeds (hx : c.Given o L x) (h : Heeds o L c c') : c'.Given o L x := by
  refine ⟨h.lt hx.1, fun ho => ?_⟩
  obtain ⟨n, t, hn, ht, hx⟩ := hx.2 ho
  exact ⟨n, t, hn, ht, h.steps.onward.nodeType n x hx⟩

end Context

section

variable {α : Type} {o : Prop} {L : List (NodeId × Tag)} {E : Cause → Prop} {c : Context}
  {x : [Access] → Check α} {Q : α → Context → Prop}

lemma Action.Ensures.heeds (h : Ensures Leads E x c Q)
    (ho : o → c.Orderly L → (x.outcome c).2.Orderly L) : Ensures (Heeds o L) E x c Q :=
  ⟨⟨h.state, ho⟩, h.value, h.fault, h.steady⟩

/-- Where nothing is known about an order. -/
lemma Action.Ensures.leads (h : Ensures (Heeds False []) E x c Q) : Ensures Leads E x c Q :=
  ⟨h.state.toLeads, h.value, h.fault, h.steady⟩

/-- A step that opens no scope, next to what it ensures. -/
lemma Check.ensures_stack {R : Context → Context → Prop} (hx : Ensures R E x c Q)
    (hw : Within (Context.Grows fun _ => True) x) :
    Ensures R E x c fun a c' => c'.stack = c.stack ∧ Q a c' :=
  hx.runs.imp fun _ _ _ h => ⟨(hw.of_runs h.1).stack, h.2⟩

end

namespace Check

variable {o : Prop} {L : List (NodeId × Tag)} {E : Cause → Prop} {c : Context} {shape : Shape}
  {n : NodeId} {t : Tag} {x : Slot}

lemma heeds_slotOf (hc : c.WellFormed) (ht : o → (n, t) ∈ L) :
    Ensures (Heeds o L) E (slotOf n) c (Gives n) :=
  (ensures_slotOf hc n).heeds fun ho h => h.slotOf (ht ho)

/-- A node that names no class and no enum gets a copy of what is in a slot. -/
lemma heeds_copy (hc : c.WellFormed) (hn : o → Private L n) (hx : x < c.types.size) :
    Ensures (Heeds o L) E (do
      let s ← slotOf n
      assign s x
      return s) c (Gives n) := by
  refine .bind (Q := Gives n) ((ensures_slotOf hc n).heeds fun ho h =>
    (hn ho).elim h.slotOf h.slotOf) fun y c1 h1 hy => ?_
  refine ((ensures_assign h1.wellFormed hy.1 (h1.lt hx)).heeds fun ho h =>
    h.assign_private (hn ho) hy.2).bind fun _ c2 h2 _ => ?_
  exact .pure (.refl h2.wellFormed) ⟨h2.lt hy.1, h2.steps.onward.nodeType n y hy.2⟩

lemma heeds_alloc (hc : c.WellFormed) (hk : c.Knows shape)
    (hs : o → c.Orderly L → c.Admits L shape) :
    Ensures (Heeds o L) E (alloc shape) c fun x c' => c'.Usable o L x :=
  .of_runs (fun _ => rfl) ⟨.op hc (.alloc shape) hk, fun ho h => h.alloc (hs ho h)⟩
    ⟨by simp, fun _ _ => ⟨by simp, fun v _ hv => absurd (hc.nodeTypes v _ hv) (Nat.lt_irrefl _)⟩⟩

lemma heeds_declare [Cause.Permitted E] {name : String} {kind : SymbolKind} {l : Location}
    (hc : c.WellFormed) (h : E (.scopeNotFound n) ∨ c.current? ≠ none) (ht : o → (n, t) ∈ L)
    (hk : o → kind = .type → (n, Tag.type name) ∈ L) :
    Ensures (Heeds o L) E (declare name kind n l) c fun _ c' => c'.stack = c.stack :=
  (ensures_stack ((ensures_declare hc name kind n l h).heeds fun ho h =>
    h.declare (mem_keys (ht ho)) (hk ho)) (within_declare _ _ _ _)).imp fun _ _ _ h => h.1

end Check

/-- What is done in a scope. -/
lemma ScopeMode.ensures_inScope {α : Type} {o : Prop} {L : List (NodeId × Tag)} {E : Cause → Prop}
    {c : Context} {mode : ScopeMode} {kind : ScopeKind} {node : Node} {body : [Access] → Check α}
    {Q : α → Context → Prop} (hc : c.WellFormed)
    (h : E (.scopeNotFound node.id) ∨ mode.mustReopen c kind = false ∨ c.scopeOf? node.id ≠ none)
    (hk : o → kind = .object → ∃ name, (node.id, Tag.type name) ∈ L)
    (hbody : ∀ c1, Heeds o L c c1 →
      (mode ≠ skip → c1.current? ≠ none ∧ c1.scopeOf? node.id ≠ none) →
        Ensures (Heeds o L) E body c1 Q)
    (hq : ∀ a c2, Leads c2 (mode.leave c2) → Q a c2 → Q a (mode.leave c2)) :
    Ensures (Heeds o L) E (mode.inScope kind node body) c Q :=
  .bracket ((ensures_enter hc h).heeds fun ho h => h.enter (hk ho))
    (fun c1 h1 hin => hbody c1 h1 hin)
    (fun _ h2 => ⟨leads_leave h2.wellFormed mode, fun _ h => h.leave mode⟩)
    fun a c2 h2 hv => hq a c2 (leads_leave h2.wellFormed mode) hv

/-! ### Annotations -/

namespace TypeExpr

variable {o : Prop} {L : List (NodeId × Tag)} {E : Cause → Prop} {c : Context}
  {tolerance : Tolerance} {n : NodeId} {ns : List NodeId} {shape : Shape}

/-- What an annotation gives: a slot, and types for all its nodes, unless an unknown name was
tolerated. -/
def Resolved (o : Prop) (L : List (NodeId × Tag)) (tolerance : Tolerance) (ns : List NodeId)
    (x : Slot) (c : Context) : Prop :=
  c.Given o L x ∧ (tolerance = .strict → c.Typed ns)

/-- The nodes of other annotations are added, which are resolved later. -/
lemma Resolved.append {c' : Context} {ms : List NodeId} {x : Slot}
    (hx : Resolved o L tolerance ns x c) (h : Heeds o L c c')
    (hms : tolerance = .strict → c'.Typed ms) : Resolved o L tolerance (ns ++ ms) x c' :=
  ⟨hx.1.heeds h, fun ht => .append (h.typed (hx.2 ht)) (hms ht)⟩

/-- The layer of an annotation that is no name. -/
lemma ensures_plain (hc : c.WellFormed) (ht : o → (n, Tag.plain) ∈ L)
    (hs : ∀ y ∈ shape.components, c.Usable o L y) (hname : shape.nominalName? = none)
    (hscope : shape.scope? = none ∨ shape.scope? = some c.currentOrRoot)
    (hns : tolerance = .strict → c.Typed ns) :
    Ensures (Heeds o L) E (Check.setShape n shape) c (Resolved o L tolerance (n :: ns)) := by
  have hknows : c.Knows shape := by
    refine ⟨?_, fun id hid => ?_⟩
    · rw [Shape.handles, Shape.nominalHandles_eq_nil hname, List.append_nil]
      exact fun y hy => (hs y hy).1
    · rcases hscope with h | h <;> cases h.symm.trans hid
      exact hc.currentOrRoot
  refine ((Check.ensures_setShape hc n hknows).heeds fun ho h => h.setShape (ht ho)
    (Clear.admits_plain (fun y hy => (hs y hy).2 ho h) hname) (.inl rfl)).imp fun x c1 h1 hx => ?_
  exact ⟨⟨hx.1, fun ho => ⟨_, _, ht ho, by simp, hx.2⟩⟩,
    fun hstrict => .cons hx.2 (h1.typed (hns hstrict))⟩

lemma ensures_resolveDeclared [Cause.Regular E] {node : Node} {name : String} (hc : c.WellFormed)
    (ht : o → (node.id, Tag.name name) ∈ L) (arguments : List TypeExpr) :
    Ensures (Heeds o L) E (resolveDeclared tolerance node name arguments.length) c
      (Resolved o L tolerance (node.id :: nodesAll arguments)) := by
  have hgiven : ∀ {x : Slot} {c' : Context}, Check.Gives node.id x c' → c'.Given o L x :=
    fun hx => ⟨hx.1, fun ho => ⟨_, _, ht ho, by simp, hx.2⟩⟩
  refine .get_bind ?_
  simp only [hc.declarationOf?_at]
  split
  · next d hd =>
    refine .refuse (.refl hc) (ordinary rfl) fun hnone => ?_
    obtain rfl : arguments = [] := by simpa using hnone
    refine (((Check.ensures_slotOf hc d).bind fun y c1 h1 hy =>
      Check.ensures_bind h1.wellFormed node.id hy.1).heeds fun ho h => ?_).imp fun x c2 _ hx =>
        ⟨hgiven hx, fun _ => .cons hx.2 .nil⟩
    have hdecl := h.type_declaration hd
    exact (h.slotOf hdecl).bind (ht ho) hdecl (nodeType?_of_slotOf rfl)
  · cases tolerance with
    | lenient =>
      exact (Check.heeds_slotOf hc ht).imp fun x c1 _ hx => ⟨hgiven hx, fun h => by cases h⟩
    | strict => exact .fail (.refl hc) (ordinary rfl)

mutual

/-- **Resolving an annotation** takes existing handles to existing handles, and keeps what is in
order. -/
lemma ensures_resolve [Cause.Regular E] : ∀ (type : TypeExpr) {c : Context}, c.WellFormed →
    Placed o L type.tags →
      Ensures (Heeds o L) E (resolve tolerance type) c (Resolved o L tolerance type.nodes)
  | .named node name arguments, c, hc, ht => by
    obtain ⟨htag, hargs⟩ := placed_cons.mp ht
    unfold resolve
    split
    · next shape hs =>
      split at hs
      · next hempty =>
        obtain rfl : arguments = [] := List.isEmpty_iff.mp hempty
        rw [show isReference name.name [] = false by simp [isReference, hs]] at htag
        refine ensures_plain hc htag (by simp [(builtin?_leaf hs).1]) (builtin?_plain hs) (.inl ?_)
          fun _ => .nil
        rcases builtin?_cases hs with rfl | rfl | rfl | ⟨n, rfl⟩ <;> rfl
      · cases hs
    · next hnone =>
      split
      · next hcon =>
        split
        · next _ argument =>
          rw [show isReference name.name [argument] = false by simp [isReference, hcon]] at htag
          simp only [tagsAll, List.append_nil] at hargs
          refine (ensures_resolve argument hc hargs).bind fun y c1 h1 hy => ?_
          simp only [nodes, nodesAll, List.append_nil]
          refine ensures_plain h1.wellFormed htag ?_ rfl (.inl rfl) hy.2
          simpa [Shape.components] using hy.1.usable
        · exact .fail (.refl hc) (ordinary rfl)
      · next hcon =>
        have href : isReference name.name arguments = true := by
          cases arguments <;> simp_all [isReference]
        rw [href] at htag
        exact ensures_resolveDeclared hc htag arguments
  | .function node parameters returns, c, hc, ht => by
    unfold tags at ht
    obtain ⟨htag, hrest⟩ := placed_cons.mp ht
    obtain ⟨hps, hreturns⟩ := placed_append.mp hrest
    unfold resolve
    refine (ensures_resolveAll parameters hc hps).bind fun slots c1 h1 hslots => ?_
    -- the result has the slot of its annotation, or a new one where none is written
    have hset : ∀ {c2 : Context} {r : Slot} {ns : List NodeId}, Heeds o L c1 c2 → c2.Usable o L r →
        (tolerance = .strict → c2.Typed ns) → Ensures (Heeds o L) E (Check.setShape node.id
          (.function r (slots.zipIdx.map fun (s, i) => (toString i, s)))) c2
          (Resolved o L tolerance (node.id :: (nodesAll parameters ++ ns))) := by
      intro c2 r ns h2 hr hns
      refine ensures_plain h2.wellFormed htag (List.forall_mem_cons.mpr ⟨hr, fun y hy => ?_⟩) rfl
        (.inl rfl) fun hstrict => .append (h2.typed (hslots.2 hstrict)) (hns hstrict)
      rw [List.map_map] at hy
      obtain ⟨p, hp, rfl⟩ := List.mem_map.mp hy
      exact ((hslots.1 _ (List.fst_mem_of_mem_zipIdx hp)).heeds h2).usable
    cases returns with
    | some type =>
      exact (ensures_resolve type h1.wellFormed hreturns).bind fun r c2 h2 hr =>
        hset h2 hr.1.usable hr.2
    | none =>
      exact (Check.heeds_alloc h1.wellFormed (.leaf rfl rfl) fun _ _ => admits_void).bind
        fun r c2 h2 hr => hset h2 hr fun _ => .nil
  | .record node fields, c, hc, ht => by
    obtain ⟨htag, hfields⟩ := placed_cons.mp ht
    unfold resolve
    refine (ensures_resolveFields fields hc hfields).bind fun slots c1 h1 hslots => .get_bind ?_
    refine ensures_plain h1.wellFormed htag (fun y hy => ?_) rfl (.inr rfl) hslots.2
    obtain ⟨p, hp, rfl⟩ := List.mem_map.mp hy
    exact (hslots.1 p hp).usable
  | .inlineEnum node items, c, hc, ht => by
    obtain ⟨htag, hitems⟩ := placed_cons.mp ht
    unfold resolve
    refine (ensures_resolveItems items hc hitems).bind fun slots c1 h1 hslots => .get_bind ?_
    exact ensures_plain h1.wellFormed htag (fun y hy => (hslots.1 y hy).usable) rfl (.inr rfl)
      hslots.2

lemma ensures_resolveAll [Cause.Regular E] : ∀ (types : List TypeExpr) {c : Context}, c.WellFormed →
    Placed o L (tagsAll types) →
      Ensures (Heeds o L) E (resolveAll tolerance types) c fun slots c' =>
        (∀ y ∈ slots, c'.Given o L y) ∧ (tolerance = .strict → c'.Typed (nodesAll types))
  | [], c, hc, _ => .pure (.refl hc) ⟨by simp, fun _ => .nil⟩
  | type :: rest, c, hc, ht => by
    obtain ⟨ht1, ht2⟩ := placed_append.mp ht
    refine (ensures_resolve type hc ht1).bind fun x c1 h1 hx => ?_
    refine (ensures_resolveAll rest h1.wellFormed ht2).bind fun slots c2 h2 hslots => ?_
    exact .pure (.refl h2.wellFormed) ((hx.append h2 hslots.2).imp_left fun hx =>
      List.forall_mem_cons.mpr ⟨hx, hslots.1⟩)

lemma ensures_resolveFields [Cause.Regular E] : ∀ (fields : List FieldType) {c : Context},
    c.WellFormed → Placed o L (FieldType.tagsAll fields) →
      Ensures (Heeds o L) E (resolveFields tolerance fields) c fun slots c' =>
        (∀ p ∈ slots, c'.Given o L p.2) ∧
          (tolerance = .strict → c'.Typed (FieldType.nodesAll fields))
  | [], c, hc, _ => .pure (.refl hc) ⟨by simp, fun _ => .nil⟩
  | ⟨_, _, type⟩ :: rest, c, hc, ht => by
    obtain ⟨ht1, ht2⟩ := placed_append.mp ht
    refine (ensures_resolve type hc ht1).bind fun x c1 h1 hx => ?_
    refine (ensures_resolveFields rest h1.wellFormed ht2).bind fun slots c2 h2 hslots => ?_
    exact .pure (.refl h2.wellFormed) ((hx.append h2 hslots.2).imp_left fun hx =>
      List.forall_mem_cons.mpr ⟨hx, hslots.1⟩)

lemma ensures_resolveItem [Cause.Regular E] : ∀ (item : EnumItem) {c : Context}, c.WellFormed →
    Placed o L item.tags →
      Ensures (Heeds o L) E (resolveItem tolerance item) c (Resolved o L tolerance item.nodes)
  | ⟨node, name, payload⟩, c, hc, ht => by
    obtain ⟨htag, hpayload⟩ := placed_cons.mp ht
    unfold resolveItem
    refine (ensures_resolveAll payload hc hpayload).bind fun slots c1 h1 hslots => .get_bind ?_
    exact ensures_plain h1.wellFormed htag (fun y hy => (hslots.1 y hy).usable) rfl (.inr rfl)
      hslots.2

lemma ensures_resolveItems [Cause.Regular E] : ∀ (items : List EnumItem) {c : Context},
    c.WellFormed → Placed o L (EnumItem.tagsAll items) →
      Ensures (Heeds o L) E (resolveItems tolerance items) c fun slots c' =>
        (∀ y ∈ slots, c'.Given o L y) ∧
          (tolerance = .strict → c'.Typed (EnumItem.nodesAll items))
  | [], c, hc, _ => .pure (.refl hc) ⟨by simp, fun _ => .nil⟩
  | item :: rest, c, hc, ht => by
    obtain ⟨ht1, ht2⟩ := placed_append.mp ht
    refine (ensures_resolveItem item hc ht1).bind fun x c1 h1 hx => ?_
    refine (ensures_resolveItems rest h1.wellFormed ht2).bind fun slots c2 h2 hslots => ?_
    exact .pure (.refl h2.wellFormed) ((hx.append h2 hslots.2).imp_left fun hx =>
      List.forall_mem_cons.mpr ⟨hx, hslots.1⟩)

end

/-- The type of a declaration that is no class and no enum. -/
lemma ensures_resolveInto [Cause.Regular E] {type : TypeExpr} (hc : c.WellFormed)
    (hn : o → Private L n) (ht : Placed o L type.tags) :
    Ensures (Heeds o L) E (resolveInto tolerance n type) c fun x c' =>
      Check.Gives n x c' ∧ (tolerance = .strict → c'.Typed (n :: type.nodes)) := by
  refine (ensures_resolve type hc ht).bind fun y c1 h1 hy => ?_
  exact (Check.heeds_copy h1.wellFormed hn hy.1.1).imp fun x c2 h2 hx =>
    ⟨hx, fun ht => .cons hx.2 (h2.typed (hy.2 ht))⟩

end TypeExpr

/-! ### Scopes of declarations -/

/-- The node of a declaration that has a scope of its own. -/
def Decl.home? : Decl → Option NodeId
  | .object c => some c.id
  | .function f => some f.id
  | .enum e => some e.id
  | .var _ | .foreign _ => none

/-- The nodes that have slots once the declaration is collected. A function of the host is
resolved at once, every other annotation may have to wait. -/
def Decl.collected : Decl → List NodeId
  | .foreign f => (Decl.foreign f).signature
  | d => [d.node.id]

namespace Context

variable {c c' : Context} {mode : ScopeMode} {ds ds' : List Decl} {d : Decl}

/-- The declarations have their scopes. -/
def Houses (c : Context) (ds : List Decl) : Prop :=
  ∀ d ∈ ds, ∀ n, d.home? = some n → c.scopeOf? n ≠ none

lemma Leads.houses (h : Leads c c') (hd : c.Houses ds) : c'.Houses ds :=
  fun d hd' n hn => h.steps.onward.scopeOf n (hd d hd' n hn)

/-- The declarations have been collected. Where scopes are left out they have types only. -/
def Collected (c : Context) (mode : ScopeMode) (ds : List Decl) : Prop :=
  (mode ≠ .skip → c.Houses ds) ∧ c.Typed (ds.flatMap Decl.collected)

lemma Leads.collected (h : Leads c c') (hd : c.Collected mode ds) : c'.Collected mode ds :=
  hd.imp (fun hd hmode => h.houses (hd hmode)) h.typed

lemma Collected.nil : c.Collected mode [] := ⟨fun _ => by simp [Houses], .nil⟩

lemma Collected.cons (hhome : mode ≠ .skip → ∀ n, d.home? = some n → c.scopeOf? n ≠ none)
    (hd : c.Typed d.collected) (h : c.Collected mode ds) : c.Collected mode (d :: ds) :=
  ⟨fun hmode => List.forall_mem_cons.mpr ⟨hhome hmode, h.1 hmode⟩, .append hd h.2⟩

lemma Collected.append (h : c.Collected mode ds) (h' : c.Collected mode ds') :
    c.Collected mode (ds ++ ds') :=
  ⟨fun hmode => List.forall_mem_append.mpr ⟨h.1 hmode, h'.1 hmode⟩, by
    rw [List.flatMap_append]
    exact .append h.2 h'.2⟩

end Context

/-- A field more refers to one slot more. -/
lemma Shape.mem_handles_addField {shape : Shape} {name : String} {s y : Slot}
    (h : y ∈ (shape.addField name s).handles) : y ∈ shape.handles ∨ y = s := by
  cases shape with
  | object =>
    simpa [addField, handles, components, nominalHandles, or_assoc] using h
  | _ => exact .inl h

/-! ### Collection -/

namespace Collect

variable {o : Prop} {L : List (NodeId × Tag)} {E : Cause → Prop} {c c1 c' : Context}
  {mode : ScopeMode} {tolerance : Tolerance}

/-- Names can be declared: either no one minds a missing scope, or there is always one. -/
def Opened (E : Cause → Prop) (mode : ScopeMode) (c : Context) : Prop :=
  (∀ n, E (.scopeNotFound n)) ∨ mode = .fresh ∧ c.current? ≠ none

namespace Opened

lemma of_stack (h : Opened E mode c) (hs : c'.stack = c.stack) : Opened E mode c' :=
  h.imp_right fun h => ⟨h.1, by
    rw [current?, hs]
    exact h.2⟩

lemma declare (h : Opened E mode c) (n : NodeId) : E (.scopeNotFound n) ∨ c.current? ≠ none :=
  h.imp (fun h => h n) fun h => h.2

lemma enter (h : Opened E mode c) (n : NodeId) (kind : ScopeKind) :
    E (.scopeNotFound n) ∨ mode.mustReopen c kind = false ∨ c.scopeOf? n ≠ none := by
  rcases h with h | ⟨rfl, -⟩
  · exact .inl (h n)
  · exact .inr (.inl rfl)

lemma inside {n : NodeId} (h : Opened E mode c)
    (hin : mode ≠ .skip → c'.current? ≠ none ∧ c'.scopeOf? n ≠ none) : Opened E mode c' := by
  refine h.imp_right fun h => ⟨h.1, (hin ?_).1⟩
  rw [h.1]
  decide

end Opened

lemma ensures_parametersFrom [Cause.Permitted E] (declared : Bool) :
    ∀ (ps : List Parameter) {c : Context}, c.WellFormed → Opened E mode c →
      Placed o L (ps.flatMap Parameter.tags) →
        Ensures (Heeds o L) E (parametersFrom declared tolerance ps) c fun slots c' =>
          (∀ q ∈ slots, c'.Given o L q.2) ∧
            (tolerance = .strict → c'.Typed (ps.flatMap Parameter.nodes))
  | [], _, hc, _, _ => .pure (.refl hc) ⟨by simp, fun _ => .nil⟩
  | p :: rest, c, hc, ho, ht => by
    rw [List.flatMap_cons] at ht
    obtain ⟨ht1, ht2⟩ := placed_append.mp ht
    obtain ⟨htag, htype⟩ := placed_cons.mp ht1
    have hrest : ∀ {c1 : Context}, c1.WellFormed → Opened E mode c1 → Ensures (Heeds o L) E (do
        let s ← TypeExpr.resolveInto tolerance p.id p.type
        return (p.name.name, s) :: (← parametersFrom declared tolerance rest)) c1 fun slots c' =>
          (∀ q ∈ slots, c'.Given o L q.2) ∧
            (tolerance = .strict → c'.Typed ((p :: rest).flatMap Parameter.nodes)) := by
      intro c1 hc1 ho1
      refine (Check.ensures_stack
        (TypeExpr.ensures_resolveInto hc1 (fun ho => .inl (htag ho)) htype)
        (TypeExpr.within_resolveInto _ _ _)).bind
          fun x c2 h2 ⟨hs, hx, htyped⟩ => ?_
      have hown : TypeExpr.Resolved o L tolerance p.nodes x c2 :=
        ⟨⟨hx.1, fun ho => ⟨_, _, htag ho, by simp, hx.2⟩⟩, htyped⟩
      refine (ensures_parametersFrom declared rest h2.wellFormed (ho1.of_stack hs) ht2).bind
        fun slots c3 h3 hslots => ?_
      exact .pure (.refl h3.wellFormed) ((hown.append h3 hslots.2).imp_left fun hx =>
        List.forall_mem_cons.mpr ⟨hx, hslots.1⟩)
    unfold parametersFrom
    dsimp only
    split
    · exact (Check.heeds_declare hc (ho.declare _) htag (by simp)).bind fun _ c1 h1 hs =>
        hrest h1.wellFormed (ho.of_stack hs)
    · exact hrest hc ho

lemma ensures_parameters [Cause.Permitted E] (hc : c.WellFormed) (ho : Opened E mode c)
    (ps : List Parameter) (ht : Placed o L (ps.flatMap Parameter.tags)) :
    Ensures (Heeds o L) E (parameters tolerance ps) c fun slots c' =>
      (∀ q ∈ slots, c'.Given o L q.2) ∧
        (tolerance = .strict → c'.Typed (ps.flatMap Parameter.nodes)) := by
  refine .get_bind ?_
  simp only [hc.currentKind?_at]
  exact ensures_parametersFrom _ ps hc ho ht

lemma ensures_resultType [Cause.Regular E] (hc : c.WellFormed) (type : Option TypeExpr)
    (ht : Placed o L (TypeExpr.tags? type)) :
    Ensures (Heeds o L) E (resultType tolerance type) c fun x c' =>
      c'.Usable o L x ∧ (tolerance = .strict → c'.Typed (TypeExpr.nodes? type)) := by
  cases type with
  | none =>
    exact (Check.heeds_alloc hc (.leaf rfl rfl) fun _ _ => admits_void).imp fun _ _ _ hx =>
      ⟨hx, fun _ => .nil⟩
  | some type =>
    exact (TypeExpr.ensures_resolve type hc ht).imp fun _ _ _ hx => ⟨hx.1.usable, hx.2⟩

/-- The type of a function, once its parameters and its result are known. -/
lemma ensures_setFunction {n : NodeId} {returns : Slot} {ps : List (String × Slot)}
    (hc : c.WellFormed) (ht : o → (n, Tag.plain) ∈ L) (hps : ∀ q ∈ ps, c.Given o L q.2)
    (hreturns : c.Usable o L returns) :
    Ensures (Heeds o L) E (Check.setShape n (.function returns ps)) c
      (TypeExpr.Resolved o L .strict [n]) := by
  refine TypeExpr.ensures_plain hc ht (List.forall_mem_cons.mpr ⟨hreturns, fun y hy => ?_⟩) rfl
    (.inl rfl) fun _ => .nil
  obtain ⟨q, hq, rfl⟩ := List.mem_map.mp hy
  exact (hps q hq).usable

/-- The type of a class or an enum whose scope is the current one in `c`. -/
lemma ensures_setNominal {n : NodeId} {name : String} (shape : Shape) (hc : c.WellFormed)
    (h : Heeds o L c c1) (ht : o → (n, Tag.type name) ∈ L)
    (hname : shape.nominalName? = some name) (hscope : shape.scope? = some c.currentOrRoot)
    (hempty : shape.components = []) (hh : ∀ y ∈ shape.nominalHandles, y < c1.types.size)
    (hb : ∀ y, shape.base? = some y → c1.Usable o L y) :
    Ensures (Heeds o L) E (Check.setShape n shape) c1 (Check.Gives n) := by
  have hknows : c1.Knows shape := by
    refine ⟨by rwa [Shape.handles, hempty], fun id hid => ?_⟩
    cases hscope.symm.trans hid
    exact hc.currentOrRoot.imp_right fun hlt => hlt.trans_le h.steps.onward.scopes_le
  exact (Check.ensures_setShape h.wellFormed n hknows).heeds fun ho h => h.setShape (ht ho)
    (Clear.admits (by simp [hempty]) hh fun y hy => (hb y hy).2 ho h) (.inr ⟨_, rfl, hname⟩)

lemma ensures_function [Cause.Permitted E] (hc : c.WellFormed) (ho : Opened E mode c)
    (f : FunctionDecl) (ht : Placed o L (Decl.function f).tags) :
    Ensures (Heeds o L) E (function mode f) c fun _ c' => c'.Collected mode [.function f] := by
  obtain ⟨htag, hrest⟩ := placed_cons.mp ht
  obtain ⟨hps, hreturns⟩ := placed_append.mp hrest
  refine (Check.heeds_declare hc (ho.declare _) htag (by simp)).bind fun _ c1 h1 hs => ?_
  have ho1 := ho.of_stack hs
  refine ScopeMode.ensures_inScope h1.wellFormed (ho1.enter _ _) (by simp) (fun c2 h2 hin => ?_)
    fun _ _ h hd => h.collected hd
  refine (ensures_parameters h2.wellFormed (ho1.inside hin) f.parameters hps).bind
    fun ps c3 h3 hps => ?_
  refine (ensures_resultType h3.wellFormed f.returns hreturns).bind fun r c4 h4 hr => ?_
  refine (ensures_setFunction h4.wellFormed htag (fun q hq => (hps.1 q hq).heeds h4) hr.1).bind
    fun x c5 h5 hx => ?_
  refine .pure (.refl h5.wellFormed) (.cons (fun hmode n hn => ?_) (hx.2 rfl) .nil)
  cases hn
  exact ((h3.trans h4).trans h5).steps.onward.scopeOf _ (hin hmode).2

/-- The first guess at a value can be stored. -/
lemma knows_guess (hc : c.WellFormed) (e : Expr) :
    c.Knows ((valueShape? c e).getD .unknown) := by
  rcases h : valueShape? c e with _ | shape
  · exact .leaf rfl rfl
  · rcases valueShape?_cases h with ⟨value, hvalue⟩ | ⟨y, rfl⟩
    · cases value <;> cases hvalue <;> exact .leaf rfl rfl
    · exact hc.knows y

lemma admits_guess (h : c.Orderly L) (e : Expr) : c.Admits L ((valueShape? c e).getD .unknown) := by
  rcases hv : valueShape? c e with _ | shape
  · exact admits_unknown
  · rcases valueShape?_cases hv with ⟨_, hvalue⟩ | ⟨y, rfl⟩
    · obtain ⟨hname, hnil⟩ := plain_of_literal hvalue
      exact Clear.admits_plain (by simp [hnil]) hname
    · exact h.shapes y

/-- A variable, if entering its name does as it should. -/
lemma ensures_variableDecl [Cause.Regular E] {Q : Unit → Context → Prop} {v : VariableDecl}
    (ht : Placed o L (Decl.var v).tags)
    (hd : Ensures (Heeds o L) E (Check.declare v.name.name .value v.id v.location) c Q) :
    Ensures (Heeds o L) E (variableDecl v) c fun _ c' => c'.Typed [v.id] := by
  obtain ⟨htag, htype⟩ := placed_cons.mp ht
  refine hd.bind fun _ c1 h1 _ => ?_
  split
  · next type _ heq =>
    rw [heq] at htype
    exact (TypeExpr.ensures_resolveInto h1.wellFormed (fun ho => .inr (htag ho)) htype).map
      fun _ _ hx => .cons hx.1.2 .nil
  · next e _ _ =>
    refine .get_bind ?_
    simp only [h1.wellFormed.valueShape?_at]
    refine (Check.heeds_alloc h1.wellFormed (knows_guess h1.wellFormed e) fun _ h =>
      admits_guess h e).bind fun guess c2 h2 hg => ?_
    refine (Check.heeds_slotOf h2.wellFormed htag).bind fun s c3 h3 hs => ?_
    exact ((Check.ensures_assign h3.wellFormed hs.1 (h3.lt hg.1)).heeds fun ho h =>
      h.assign_private (.inr (htag ho)) hs.2).imp fun _ _ h4 _ =>
        .cons (h4.steps.onward.nodeType _ s hs.2) .nil
  · exact .fail (.refl h1.wellFormed) (ordinary rfl)

lemma ensures_enumItems [Cause.Permitted E] : ∀ (items : List EnumItem) {c : Context},
    c.WellFormed → Opened E mode c → Placed o L (EnumItem.tagsAll items) →
      Ensures (Heeds o L) E (enumItems items) c fun slots c' => ∀ y ∈ slots, c'.Given o L y
  | [], _, hc, _, _ => .pure (.refl hc) (by simp)
  | ⟨node, name, payload⟩ :: rest, c, hc, ho, ht => by
    obtain ⟨ht1, ht2⟩ := placed_append.mp ht
    refine (Check.heeds_declare hc (ho.declare _) (placed_cons.mp ht1).1 (by simp)).bind
      fun _ c1 h1 hs1 => ?_
    refine (Check.ensures_stack (TypeExpr.ensures_resolveItem _ h1.wellFormed ht1)
      (TypeExpr.within_resolveItem _ _)).bind fun x c2 h2 hx => ?_
    refine (ensures_enumItems rest h2.wellFormed ((ho.of_stack hs1).of_stack hx.1) ht2).bind
      fun slots c3 h3 hslots => .pure (.refl h3.wellFormed) ?_
    exact List.forall_mem_cons.mpr ⟨hx.2.1.heeds h3, hslots⟩

lemma ensures_enum [Cause.Permitted E] (hc : c.WellFormed) (ho : Opened E mode c) (e : EnumDecl)
    (ht : Placed o L (Decl.enum e).tags) :
    Ensures (Heeds o L) E (enum mode e) c fun _ c' => c'.Collected mode [.enum e] := by
  obtain ⟨htag, hitems⟩ := placed_cons.mp ht
  refine (Check.heeds_declare hc (ho.declare _) htag fun ho _ => htag ho).bind
    fun _ c1 h1 hs => ?_
  have ho1 := ho.of_stack hs
  refine ScopeMode.ensures_inScope h1.wellFormed (ho1.enter _ _) (by simp)
    (fun c2 h2 hin => .get_bind ?_) fun _ _ h hd => h.collected hd
  refine (ensures_enumItems e.items h2.wellFormed (ho1.inside hin) hitems).bind
    fun items c3 h3 hitems => ?_
  refine (ensures_setNominal (.enum c2.currentOrRoot e.name.name items) h2.wellFormed h3 htag
    rfl rfl rfl (fun y hy => (hitems y hy).1) (by simp [Shape.base?])).bind fun x c4 h4 hx => ?_
  refine .pure (.refl h4.wellFormed) (.cons (fun hmode n hn => ?_) (.cons hx.2 .nil) .nil)
  cases hn
  exact (h3.trans h4).steps.onward.scopeOf _ (hin hmode).2

/-- A function of the host likewise. Whatever is wrong with its signature, it is not concrete. -/
lemma ensures_foreign [Cause.Regular E] {Q : Unit → Context → Prop} {f : ForeignDecl}
    (ht : Placed o L (Decl.foreign f).tags)
    (hd : Ensures (Heeds o L) E (Check.declare f.name.name .value f.id f.location) c Q) :
    Ensures (Heeds o L) E (foreign f) c fun _ c' => c'.Typed (Decl.foreign f).signature := by
  obtain ⟨htag, hrest⟩ := placed_cons.mp ht
  obtain ⟨hps, hreturns⟩ := placed_append.mp hrest
  refine hd.bind fun _ c1 h1 _ => ?_
  have hopened : Opened (fun _ => True) .fresh c1 := .inl fun _ => trivial
  refine ((ensures_parameters h1.wellFormed hopened f.parameters hps).orElseFault
    (ordinary rfl)).bind fun ps c2 h2 hps => ?_
  refine ((ensures_resultType (E := fun _ => True) h2.wellFormed f.returns hreturns).orElseFault
    (ordinary rfl)).bind fun r c3 h3 hr => ?_
  refine (ensures_setFunction h3.wellFormed htag (fun q hq => (hps.1 q hq).heeds h3) hr.1).bind
    fun s c4 h4 hs => Check.ensures_types ?_
  simp only [h4.wellFormed.type_at hs.1.1]
  split
  · exact .throw (.refl h4.wellFormed) (ordinary rfl)
  · exact .pure (.refl h4.wellFormed)
      ((hs.2 rfl).append (h4.typed (.append (h3.typed (hps.2 rfl)) (hr.2 rfl))))

lemma knows_addField {shape : Shape} {name : String} {s : Slot} (h : c.Knows shape)
    (hs : s < c.types.size) : c.Knows (shape.addField name s) :=
  ⟨fun y hy => (Shape.mem_handles_addField hy).elim (h.handles y) (· ▸ hs), by
    cases shape <;> exact h.scope⟩

/-- A field more leaves a class what it is. -/
lemma admits_addField {shape : Shape} {name : String} {s : Slot} (h : c.Admits L shape)
    (hs : s < c.types.size) : c.Admits L (shape.addField name s) :=
  ⟨fun y hy => (Shape.mem_handles_addField hy).elim (h.handles y) (· ▸ hs), by
    cases shape <;> exact h.parts⟩

lemma ensures_addField {object : Slot} {member : Decl} {t : Tag} (hc : c.WellFormed)
    (hobject : object < c.types.size) (ht : o → (member.node.id, t) ∈ L) :
    Ensures (Heeds o L) E (addField object member) c fun _ _ => True := by
  unfold addField
  split
  · refine (Check.heeds_slotOf hc ht).bind fun s c1 h1 hs => Check.ensures_types ?_
    have hknows : c1.Knows ((c1.types.get object).addField member.name s) :=
      knows_addField (h1.wellFormed.knows object) hs.1
    have hlt := h1.lt hobject
    simp only [h1.wellFormed.type_at hlt]
    refine .of_runs (a := ()) (fun A => runs_modify.mpr (by rw [set_at hlt]; rfl))
      ⟨.op h1.wellFormed (.set object _) ⟨hlt, hknows⟩, fun _ h => ?_⟩ trivial
    refine h.set (admits_addField (h.shapes object) hs.1) fun name hname => ?_
    rcases h.nominal name object hname with hget | hget
    · exact .inl (by rw [hget]; rfl)
    · refine .inr (Eq.trans ?_ hget)
      generalize c1.types.get object = shape
      cases shape <;> rfl
  · exact .pure (.refl hc) trivial

lemma ensures_baseType [Cause.Regular E] (hc : c.WellFormed) (base : Option TypeExpr)
    (ht : Placed o L (TypeExpr.tags? base)) :
    Ensures (Heeds o L) E (baseType base) c fun b c' => ∀ y, b = some y → c'.Usable o L y := by
  cases base with
  | none => exact .pure (.refl hc) (by simp)
  | some type =>
    refine (TypeExpr.ensures_resolve type hc ht).bind fun x c1 h1 hx => ?_
    refine .pure (.refl h1.wellFormed) fun y hy => ?_
    cases hy
    exact hx.1.usable

mutual

/-- **Collecting a declaration.** -/
lemma ensures_decl [Cause.Permitted E] : ∀ (d : Decl) {c : Context}, c.WellFormed →
    Opened E mode c → Placed o L (d.all.flatMap Decl.tags) →
      Ensures (Heeds o L) E (decl mode d) c fun _ c' => c'.Collected mode d.all
  | .object d, _, hc, ho, ht => (ensures_object d hc ho ht).within
  | .function f, _, hc, ho, ht => by
    simp only [Decl.all, List.flatMap_singleton] at ht
    exact (ensures_function hc ho f ht).within
  | .var v, _, hc, ho, ht => by
    simp only [Decl.all, List.flatMap_singleton] at ht
    exact (ensures_variableDecl ht (Check.heeds_declare hc (ho.declare _) (placed_cons.mp ht).1
      (by simp))).within.imp fun _ _ _ h => .cons (fun _ _ hn => by cases hn) h .nil
  | .enum e, _, hc, ho, ht => by
    simp only [Decl.all, List.flatMap_singleton] at ht
    exact (ensures_enum hc ho e ht).within
  | .foreign f, _, hc, ho, ht => by
    simp only [Decl.all, List.flatMap_singleton] at ht
    exact (ensures_foreign ht (Check.heeds_declare hc (ho.declare _) (placed_cons.mp ht).1
      (by simp))).within.imp fun _ _ _ h => .cons (fun _ _ hn => by cases hn) h .nil

lemma ensures_object [Cause.Permitted E] : ∀ (d : ClassDecl) {c : Context}, c.WellFormed →
    Opened E mode c → Placed o L ((Decl.object d).all.flatMap Decl.tags) →
      Ensures (Heeds o L) E (object mode d) c fun _ c' => c'.Collected mode (Decl.object d).all
  | ⟨node, name, base, members⟩, c, hc, ho, ht => by
    rw [Decl.all, List.flatMap_cons] at ht
    obtain ⟨hown, hmembers⟩ := placed_append.mp ht
    obtain ⟨htag, hbase⟩ := placed_cons.mp hown
    refine (Check.heeds_declare hc (ho.declare _) htag fun ho _ => htag ho).bind
      fun _ c1 h1 hs => ?_
    have ho1 := ho.of_stack hs
    refine ScopeMode.ensures_inScope h1.wellFormed (ho1.enter _ _) (fun ho _ => ⟨_, htag ho⟩)
      (fun c2 h2 hin => .get_bind ?_) fun _ _ h hd => h.collected hd
    refine (Check.ensures_stack (ensures_baseType h2.wellFormed base hbase)
      (within_baseType base)).bind fun b c3 h3 hb => ?_
    refine (Check.ensures_stack (ensures_setNominal (.object c2.currentOrRoot b name.name [])
      h2.wellFormed h3 htag rfl rfl rfl
      (by simpa [Shape.nominalHandles] using fun y hy => (hb.2 y hy).1) hb.2)
      (Check.within_setShape trivial)).bind fun s c4 h4 hs4 => ?_
    refine (ensures_fields members h4.wellFormed
      (((ho1.inside hin).of_stack hb.1).of_stack hs4.1) hs4.2.1 hmembers).imp fun _ c5 h5 hall => ?_
    refine .cons (fun hmode n hn => ?_) (.cons (h5.steps.onward.nodeType _ _ hs4.2.2) .nil) hall
    cases hn
    exact ((h3.trans h4).trans h5).steps.onward.scopeOf _ (hin hmode).2

lemma ensures_fields [Cause.Permitted E] : ∀ (ds : List Decl) {s : Slot} {c : Context},
    c.WellFormed → Opened E mode c → s < c.types.size →
    Placed o L ((Decl.allOf ds).flatMap Decl.tags) →
      Ensures (Heeds o L) E (fields mode s ds) c fun _ c' => c'.Collected mode (Decl.allOf ds)
  | [], _, _, hc, _, _, _ => .pure (.refl hc) .nil
  | d :: rest, s, c, hc, ho, hs, ht => by
    rw [Decl.allOf, List.flatMap_append] at ht
    obtain ⟨ht1, ht2⟩ := placed_append.mp ht
    obtain ⟨t, htag⟩ : ∃ t, (d.node.id, t) ∈ d.tags := by
      cases d <;> exact ⟨_, List.mem_cons_self⟩
    refine (Check.ensures_stack (ensures_decl d hc ho ht1)
      (within_decl mode d)).bind fun _ c1 h1 hd => ?_
    refine (Check.ensures_stack (ensures_addField h1.wellFormed (h1.lt hs) fun ho =>
      ht1 ho _ (List.mem_flatMap.mpr ⟨d, d.mem_all, htag⟩))
      (within_addField _ _)).bind fun _ c2 h2 hf => ?_
    exact (ensures_fields rest h2.wellFormed ((ho.of_stack hd.1).of_stack hf.1)
      (h2.lt (h1.lt hs)) ht2).imp fun _ c3 h3 hrest =>
        ((h2.trans h3).collected hd.2).append hrest

end

lemma ensures_decls [Cause.Permitted E] : ∀ (ds : List Decl) {c : Context}, c.WellFormed →
    Opened E mode c → Placed o L ((Decl.allOf ds).flatMap Decl.tags) →
      Ensures (Heeds o L) E (decls mode ds) c fun _ c' => c'.Collected mode (Decl.allOf ds)
  | [], _, hc, _, _ => .pure (.refl hc) .nil
  | d :: rest, c, hc, ho, ht => by
    rw [Decl.allOf, List.flatMap_append] at ht
    obtain ⟨ht1, ht2⟩ := placed_append.mp ht
    refine (Check.ensures_stack (ensures_decl d hc ho ht1)
      (within_decl mode d)).bind fun _ c1 h1 hd => ?_
    exact (ensures_decls rest h1.wellFormed (ho.of_stack hd.1) ht2).imp fun _ c2 h2 hrest =>
      (h2.collected hd.2).append hrest

/-- **The first walk.** -/
lemma heeds_program [Cause.Permitted E] (hc : c.WellFormed) (p : Program)
    (h : (∀ n, E (.scopeNotFound n)) ∨ mode = .fresh) (ht : Placed o L p.layout) :
    Ensures (Heeds o L) E (program mode p) c fun _ c' =>
      (mode ≠ .skip → c'.scopeOf? p.id ≠ none) ∧ c'.Collected mode p.allDecls := by
  refine ScopeMode.ensures_inScope hc ?_ (by simp) (fun c1 h1 hin => ?_) fun _ c' h hq =>
    ⟨fun hmode => h.steps.onward.scopeOf _ (hq.1 hmode), h.collected hq.2⟩
  · rcases h with h | rfl
    · exact .inl (h _)
    · exact .inr (.inl rfl)
  · have ho : Opened E mode c1 := h.imp_right fun hmode => ⟨hmode, (hin (by simp [hmode])).1⟩
    exact (ensures_decls p.declarations h1.wellFormed ho ht).imp fun _ c2 h2 hall =>
      ⟨fun hmode => h2.steps.onward.scopeOf _ (hin hmode).2, hall⟩

/-- The first walk from a well-formed context leads to a well-formed context. -/
lemma ensures_program [Cause.Permitted E] (hc : c.WellFormed) (p : Program)
    (h : (∀ n, E (.scopeNotFound n)) ∨ mode = .fresh) :
    Ensures Leads E (program mode p) c fun _ c' =>
      mode ≠ .skip → c'.scopeOf? p.id ≠ none ∧ c'.Houses p.allDecls :=
  (heeds_program hc p h False.elim).leads.imp fun _ _ _ hq hmode => ⟨hq.1 hmode, hq.2.1 hmode⟩

/-- What the first walk leaves of a program whose nodes stand for one thing each. -/
lemma orderly_program {p : Program} (hp : (p.allDecls.flatMap Decl.signature).Nodup)
    (hr : Runs (program mode p) {} () c) :
    c.WellFormed ∧ c.Orderly p.layout ∧ c.Typed (p.allDecls.flatMap Decl.collected) := by
  have h : Ensures (Heeds True p.layout) (fun _ => True) (program mode p) {} _ :=
    heeds_program .empty p (.inl fun _ => trivial) fun _ _ h => h
  exact ⟨(h.of_value hr).wellFormed,
    (h.of_value hr).orderly trivial (orderly_empty (by rwa [p.layout_fst])), (h.value _ _ hr).2.2⟩

end Collect

/-! ### Signatures -/

namespace Resolve

variable {o : Prop} {L : List (NodeId × Tag)} {E : Cause → Prop} {c c' : Context}
  {mode : ScopeMode} {ds : List Decl}

/-- The scopes of the declarations are there, or no one minds a missing one. -/
def Housed (E : Cause → Prop) (ds : List Decl) (c : Context) : Prop :=
  (∀ n, E (.scopeNotFound n)) ∨ c.Houses ds

lemma Housed.leads (h : Housed E ds c) (hl : Leads c c') : Housed E ds c' :=
  h.imp_right hl.houses

lemma Housed.sub {ds' : List Decl} (h : Housed E ds c) (hsub : ∀ d ∈ ds', d ∈ ds) :
    Housed E ds' c :=
  h.imp_right fun h d hd => h d (hsub d hd)

lemma Housed.enter {d : Decl} {n : NodeId} (h : Housed E ds c) (hd : d ∈ ds) (hn : d.home? = some n)
    (kind : ScopeKind) :
    E (.scopeNotFound n) ∨ mode.mustReopen c kind = false ∨ c.scopeOf? n ≠ none :=
  h.imp (fun h => h n) fun h => .inr (h d hd n hn)

lemma ensures_baseSignature [Cause.Regular E] (hc : c.WellFormed) (base : Option TypeExpr)
    (ht : Placed o L (TypeExpr.tags? base)) :
    Ensures (Heeds o L) E (baseSignature base) c fun _ c' => c'.Typed (TypeExpr.nodes? base) := by
  cases base with
  | none => exact .pure (.refl hc) .nil
  | some type =>
    refine (TypeExpr.ensures_resolve type hc ht).bind fun s c1 h1 hs => Check.ensures_types ?_
    simp only [h1.wellFormed.type_at hs.1.1]
    split
    · exact .fail (.refl h1.wellFormed) (ordinary rfl)
    · exact .pure (.refl h1.wellFormed) (hs.2 rfl)

lemma ensures_parameterSignatures [Cause.Regular E] : ∀ (ps : List Parameter) {c : Context},
    c.WellFormed → Placed o L (ps.flatMap Parameter.tags) →
      Ensures (Heeds o L) E (parameterSignatures ps) c fun _ c' =>
        c'.Typed (ps.flatMap Parameter.nodes)
  | [], _, hc, _ => .pure (.refl hc) .nil
  | p :: rest, _, hc, ht => by
    rw [List.flatMap_cons] at ht
    obtain ⟨ht1, ht2⟩ := placed_append.mp ht
    obtain ⟨htag, htype⟩ := placed_cons.mp ht1
    refine (TypeExpr.ensures_resolveInto hc (fun ho => .inl (htag ho)) htype).bind
      fun x c1 h1 hx => ?_
    exact (ensures_parameterSignatures rest h1.wellFormed ht2).imp fun _ _ h2 htyped =>
      .append (h2.typed (hx.2 rfl)) htyped

lemma ensures_functionSignature [Cause.Regular E] (hc : c.WellFormed) (f : FunctionDecl)
    (h : Housed E (Decl.function f).all c) (ht : Placed o L (Decl.function f).tags) :
    Ensures (Heeds o L) E (functionSignature mode f) c fun _ c' =>
      c'.Typed (f.parameters.flatMap Parameter.nodes ++ TypeExpr.nodes? f.returns) := by
  obtain ⟨hps, hreturns⟩ := placed_append.mp (placed_cons.mp ht).2
  refine ScopeMode.ensures_inScope hc (h.enter (Decl.mem_all _) rfl _) (by simp)
    (fun c1 h1 _ => ?_) fun _ _ h ht => h.typed ht
  refine (ensures_parameterSignatures f.parameters h1.wellFormed hps).bind
    fun _ c2 h2 htyped => ?_
  split
  · next type heq =>
    rw [heq] at hreturns ⊢
    exact (TypeExpr.ensures_resolve type h2.wellFormed hreturns).bind fun x c3 h3 hx =>
      .pure (.refl h3.wellFormed) (.append (h3.typed htyped) (hx.2 rfl))
  · next heq =>
    rw [heq]
    exact .pure (.refl h2.wellFormed) (.append htyped .nil)

lemma ensures_variableSignature [Cause.Regular E] (hc : c.WellFormed) (v : VariableDecl)
    (ht : Placed o L (Decl.var v).tags) :
    Ensures (Heeds o L) E (variableSignature v) c fun _ c' =>
      c'.Typed (TypeExpr.nodes? v.type) := by
  obtain ⟨htag, htype⟩ := placed_cons.mp ht
  unfold variableSignature
  split
  · next type heq =>
    rw [heq] at htype ⊢
    exact (TypeExpr.ensures_resolveInto hc (fun ho => .inr (htag ho)) htype).map fun _ _ hx =>
      (List.forall_mem_cons.mp (hx.2 rfl)).2
  · next heq =>
    rw [heq]
    exact .pure (.refl hc) .nil

lemma ensures_enumSignature [Cause.Regular E] (hc : c.WellFormed) (e : EnumDecl)
    (h : Housed E (Decl.enum e).all c) (ht : Placed o L (Decl.enum e).tags) :
    Ensures (Heeds o L) E (enumSignature mode e) c fun _ c' =>
      c'.Typed (EnumItem.nodesAll e.items) :=
  ScopeMode.ensures_inScope hc (h.enter (Decl.mem_all _) rfl _) (by simp) (fun _ h1 _ =>
    (TypeExpr.ensures_resolveItems e.items h1.wellFormed (placed_cons.mp ht).2).map
      fun _ _ hx => hx.2 rfl) fun _ _ h ht => h.typed ht

mutual

/-- **The signature of a declaration** is resolved to the end. -/
lemma ensures_signature [Cause.Regular E] : ∀ (d : Decl) {c : Context}, c.WellFormed →
    Housed E d.all c → Placed o L (d.all.flatMap Decl.tags) →
      Ensures (Heeds o L) E (signature mode d) c fun _ c' =>
        c.Typed (d.all.flatMap Decl.collected) → c'.Typed (d.all.flatMap Decl.signature)
  | .object d, _, hc, h, ht => (ensures_classSignature d hc h ht).within
  | .function f, _, hc, h, ht => by
    simp only [Decl.all, List.flatMap_singleton] at ht ⊢
    exact (ensures_functionSignature hc f h ht).within.imp fun _ _ h' htyped hd =>
      .append (h'.typed hd) htyped
  | .var v, _, hc, _, ht => by
    simp only [Decl.all, List.flatMap_singleton] at ht ⊢
    exact (ensures_variableSignature hc v ht).within.imp fun _ _ h' htyped hd =>
      .append (h'.typed hd) htyped
  | .enum e, _, hc, h, ht => by
    simp only [Decl.all, List.flatMap_singleton] at ht ⊢
    exact (ensures_enumSignature hc e h ht).within.imp fun _ _ h' htyped hd =>
      .append (h'.typed hd) htyped
  | .foreign _, _, hc, _, _ => .pure (.refl hc) fun hd => hd

lemma ensures_classSignature [Cause.Regular E] : ∀ (d : ClassDecl) {c : Context}, c.WellFormed →
    Housed E (Decl.object d).all c → Placed o L ((Decl.object d).all.flatMap Decl.tags) →
      Ensures (Heeds o L) E (classSignature mode d) c fun _ c' =>
        c.Typed ((Decl.object d).all.flatMap Decl.collected) →
          c'.Typed ((Decl.object d).all.flatMap Decl.signature)
  | ⟨node, name, base, members⟩, c, hc, h, ht => by
    rw [Decl.all, List.flatMap_cons] at ht
    obtain ⟨hown, hmembers⟩ := placed_append.mp ht
    obtain ⟨htag, hbase⟩ := placed_cons.mp hown
    refine ScopeMode.ensures_inScope hc (h.enter (Decl.mem_all _) rfl _)
      (fun ho _ => ⟨_, htag ho⟩) (fun c1 h1 _ => ?_) fun _ _ h ht hd => h.typed (ht hd)
    refine (ensures_baseSignature h1.wellFormed base hbase).bind fun _ c2 h2 htyped => ?_
    refine (ensures_signatures members h2.wellFormed (.sub (h.leads (h1.trans h2).toLeads)
      fun _ => List.mem_cons_of_mem _) hmembers).imp fun _ c3 h3 hall hd => ?_
    rw [Decl.all, List.flatMap_cons] at hd
    obtain ⟨hid, hd⟩ := List.forall_mem_append.mp ((h1.trans h2).typed hd)
    exact .append (h3.typed (.append hid htyped)) (hall hd)

lemma ensures_signatures [Cause.Regular E] : ∀ (ds : List Decl) {c : Context}, c.WellFormed →
    Housed E (Decl.allOf ds) c → Placed o L ((Decl.allOf ds).flatMap Decl.tags) →
      Ensures (Heeds o L) E (signatures mode ds) c fun _ c' =>
        c.Typed ((Decl.allOf ds).flatMap Decl.collected) →
          c'.Typed ((Decl.allOf ds).flatMap Decl.signature)
  | [], _, hc, _, _ => .pure (.refl hc) fun _ => .nil
  | d :: rest, c, hc, h, ht => by
    rw [Decl.allOf, List.flatMap_append] at ht
    obtain ⟨ht1, ht2⟩ := placed_append.mp ht
    refine (ensures_signature d hc (h.sub fun _ => List.mem_append_left _) ht1).bind
      fun _ c1 h1 htyped1 => ?_
    refine (ensures_signatures rest h1.wellFormed
      ((h.leads h1.toLeads).sub fun _ => List.mem_append_right _) ht2).imp
        fun _ c2 h2 htyped2 hd => ?_
    rw [Decl.allOf, List.flatMap_append] at hd ⊢
    obtain ⟨hd1, hd2⟩ := List.forall_mem_append.mp hd
    exact .append (h2.typed (htyped1 hd1)) (htyped2 (h1.typed hd2))

end

mutual

lemma ensures_hierarchy (hcyclic : ∀ name, E (.cyclicInheritance name)) :
    ∀ (d : Decl) {c : Context}, c.WellFormed → Ensures Leads E (hierarchy d) c fun _ _ => True
  | .object o, _, hc => ensures_classHierarchy hcyclic o hc
  | .function _, _, hc | .var _, _, hc | .enum _, _, hc | .foreign _, _, hc =>
    .pure (.refl hc) trivial

lemma ensures_classHierarchy (hcyclic : ∀ name, E (.cyclicInheritance name)) :
    ∀ (o : ClassDecl) {c : Context}, c.WellFormed →
      Ensures Leads E (classHierarchy o) c fun _ _ => True
  | ⟨node, name, _, members⟩, _, hc => by
    refine (Check.ensures_slotOf hc node.id).bind fun _ _ h1 hs => Check.ensures_types ?_
    simp only [h1.wellFormed.inheritsFromItself_at hs.1]
    exact .refuse (.refl h1.wellFormed) (hcyclic name.name) fun _ =>
      ensures_hierarchies hcyclic members h1.wellFormed

lemma ensures_hierarchies (hcyclic : ∀ name, E (.cyclicInheritance name)) :
    ∀ (ds : List Decl) {c : Context}, c.WellFormed →
      Ensures Leads E (hierarchies ds) c fun _ _ => True
  | [], _, hc => .pure (.refl hc) trivial
  | d :: rest, _, hc => (ensures_hierarchy hcyclic d hc).bind fun _ _ h1 _ =>
      ensures_hierarchies hcyclic rest h1.wellFormed

end

end Resolve

/-! ### The plan -/

namespace Plan

variable {E : Cause → Prop}

mutual

lemma ensures_addDecl (owner : NodeId) : ∀ (d : Decl) {p : Plan} {c : Context}, c.WellFormed →
    Ensures Leads E (addDecl p owner d) c fun _ _ => True
  | .var v, _, _, hc => (Check.ensures_slotOf hc v.id).map fun _ _ _ => trivial
  | .object o, _, _, hc => ensures_addClass o hc
  | .function _, _, _, hc | .enum _, _, _, hc | .foreign _, _, _, hc => .pure (.refl hc) trivial

lemma ensures_addClass : ∀ (o : ClassDecl) {p : Plan} {c : Context}, c.WellFormed →
    Ensures Leads E (addClass p o) c fun _ _ => True
  | ⟨node, _, _, members⟩, _, _, hc => ensures_addDecls node.id members hc

lemma ensures_addDecls (owner : NodeId) : ∀ (ds : List Decl) {p : Plan} {c : Context},
    c.WellFormed → Ensures Leads E (addDecls p owner ds) c fun _ _ => True
  | [], _, _, hc => .pure (.refl hc) trivial
  | d :: rest, _, _, hc => (ensures_addDecl owner d hc).bind fun _ _ h1 _ =>
      ensures_addDecls owner rest h1.wellFormed

end

end Plan

end Sema
