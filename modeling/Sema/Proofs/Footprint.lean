import Sema.Proofs.Declared
import Sema.Proofs.Frames

/-!
What the second walk leaves alone. It gives a type only to the nodes that it comes to, and to those
of the variables that are demanded on the way. Of the slots that were allocated since it began it
changes only those that it has allocated for the expression or statement at hand: what is stored
for one statement is never touched by the next. Of the slots that were there when it began, those
of signatures, it changes only the ones that belong to a variable, when that is resolved; but this
only as long as no two classes or enums have one name.
-/

namespace Sema

open Sema.Action

namespace Context

/-! ### Contexts in which every name has a type -/

/-- Whatever can be found by its name has a type, and so has the class around a scope. -/
structure Grounded (c : Context) : Prop where
  symbols : ∀ id sc, c.scope? id = some sc → ∀ symbol ∈ sc.symbols,
    ∃ x, c.nodeType? symbol.declaration = some x
  objects : ∀ id sc, c.scope? id = some sc → sc.kind = .object → ∃ x, c.nodeType? sc.node = some x

variable {c c1 c2 c' : Context} {N : Nat} {n : NodeId} {ms ns : List NodeId} {x y : Slot} {r : Slot}
  {K : Slot → Prop}

lemma Grounded.declared (h : c.Grounded) (hn : c.Declared n) : ∃ x, c.nodeType? n = some x := by
  obtain ⟨id, sc, hsc, ⟨symbol, hmem, rfl⟩ | ⟨hkind, rfl⟩⟩ := hn
  · exact h.symbols id sc hsc symbol hmem
  · exact h.objects id sc hsc hkind

lemma Grounded.declaration (h : c.Grounded) {name : String} {kind : SymbolKind} {d : NodeId}
    (hd : c.declarationOf? name kind = some d) : ∃ x, c.nodeType? d = some x :=
  h.declared (declared_of_declarationOf? hd)

/-- The symbol is in a scope. -/
def Declares (c : Context) (symbol : Symbol) : Prop :=
  ∃ id sc, c.scope? id = some sc ∧ symbol ∈ sc.symbols

/-- The node has a scope of this kind. -/
def Homes (c : Context) (n : NodeId) (kind : ScopeKind) : Prop :=
  ∃ id sc, c.scopeOf? n = some id ∧ c.scope? id = some sc ∧ sc.kind = kind ∧ sc.node = n

/-- `c'` is what became of `c` when the nodes in `ns` were given types and scopes. Slots from `N`
on keep their contents, and no type is declared. -/
structure Extends (N : Nat) (ns : List NodeId) (c c' : Context) : Prop where
  grounded : c'.Grounded
  size_le : c.types.size ≤ c'.types.size
  nodeType : ∀ n x, c.nodeType? n = some x → c'.nodeType? n = some x
  fresh : ∀ n, c.nodeType? n = none → ∀ x, c'.nodeType? n = some x → n ∈ ns
  old : ∀ x, N ≤ x → x < c.types.size → c'.types.get x = c.types.get x
  owned : ∀ n, (c.scopeOf? n).isSome → (c'.scopeOf? n).isSome
  homes : ∀ n kind, n ∉ ns → c.Homes n kind → c'.Homes n kind
  symbols : ∀ symbol, symbol.kind = .type → c'.Declares symbol → c.Declares symbol

namespace Extends

lemma refl (h : c.Grounded) : Extends N [] c c :=
  ⟨h, le_rfl, fun _ _ h => h, fun _ hn _ hx => absurd (hn.symm.trans hx) (by simp),
    fun _ _ _ => rfl, fun _ h => h, fun _ _ _ h => h, fun _ _ h => h⟩

lemma trans (h1 : Extends N ms c c1) (h2 : Extends N ns c1 c2) : Extends N (ms ++ ns) c c2 := by
  refine ⟨h2.grounded, h1.size_le.trans h2.size_le,
    fun n x h => h2.nodeType n x (h1.nodeType n x h), ?_, ?_,
    fun n h => h2.owned n (h1.owned n h), ?_,
    fun t ht h => h1.symbols t ht (h2.symbols t ht h)⟩
  · intro n hn x hx
    rcases hn1 : c1.nodeType? n with _ | y
    · exact List.mem_append_right _ (h2.fresh n hn1 x hx)
    · exact List.mem_append_left _ (h1.fresh n hn y hn1)
  · intro x hN hx
    rw [h2.old x hN (hx.trans_le h1.size_le), h1.old x hN hx]
  · intro n kind hn h
    obtain ⟨hm, hn⟩ := not_or.mp (mt List.mem_append.mpr hn)
    exact h2.homes n kind hn (h1.homes n kind hm h)

lemma mono (h : Extends N ms c c') (hsub : ∀ n ∈ ms, n ∈ ns) : Extends N ns c c' :=
  { h with
    fresh := fun n hn x hx => hsub n (h.fresh n hn x hx)
    homes := fun n kind hn => h.homes n kind fun hm => hn (hsub n hm) }

/-- A node that is not among those given types has the type it had. -/
lemma nodeType?_eq (h : Extends N ns c c') (hn : n ∉ ns) : c'.nodeType? n = c.nodeType? n := by
  rcases hc : c.nodeType? n with _ | x
  · rcases hc' : c'.nodeType? n with _ | y
    · rfl
    · exact absurd (h.fresh n hc y hc') hn
  · exact h.nodeType n x hc

end Extends

/-! ### Primitive steps -/

lemma Grounded.extends_place (h : c.Grounded) (hp : Places n x c c') : Extends N [n] c c' := by
  have hscope : ∀ id, c'.scope? id = c.scope? id := by
    intro id
    rw [hp.rest]
    rfl
  refine ⟨⟨?_, ?_⟩, hp.size_le, fun _ _ => hp.keeps, ?_, fun y _ => hp.old y, ?_, ?_, ?_⟩
  · intro id sc hsc symbol hmem
    obtain ⟨y, hy⟩ := h.symbols id sc ((hscope id).symm.trans hsc) symbol hmem
    exact ⟨y, hp.keeps hy⟩
  · intro id sc hsc hk
    obtain ⟨y, hy⟩ := h.objects id sc ((hscope id).symm.trans hsc) hk
    exact ⟨y, hp.keeps hy⟩
  · intro m hm y hy
    rw [hp.nodeType?] at hy
    split at hy
    · next heq => exact List.mem_singleton.mpr heq
    · cases hm.symm.trans hy
  · rw [hp.rest]
    exact fun _ h => h
  · rw [hp.rest]
    exact fun _ _ _ h => h
  · rw [hp.rest]
    exact fun _ _ h => h

lemma Grounded.extends_types (h : c.Grounded) {t : TypeStore} (hsize : c.types.size ≤ t.size)
    (hold : ∀ y, N ≤ y → y < c.types.size → t.get y = c.types.get y) :
    Extends N [] c { c with types := t } :=
  ⟨⟨h.symbols, h.objects⟩, hsize, fun _ _ h => h,
    fun n hn x hx => absurd (hn.symm.trans hx) (by simp), hold, fun _ h => h, fun _ _ _ h => h,
    fun _ _ h => h⟩

lemma Grounded.extends_alloc (h : c.Grounded) (shape : Shape) :
    Extends N [] c (c.alloc shape).2 :=
  h.extends_types (by simp) fun y _ hy => c.types.get_alloc_of_lt shape hy

/-- Storing a shape for a node that has a slot below `N`, or none. -/
lemma Grounded.extends_setShape (h : c.Grounded) {shape : Shape}
    (hn : ∀ y, c.nodeType? n = some y → y < N) (hs : c.setShape n shape = (x, c')) :
    Extends N [n] c c' := by
  rcases hc : c.nodeType? n with _ | y
  · exact h.extends_place (.setShape hc hs)
  · rw [setShape_of_some hc] at hs
    cases hs
    refine (h.extends_types (by simp) fun z hN _ => ?_).mono (by simp)
    refine c.types.get_set_of_ne shape ?_
    rintro rfl
    exact absurd (hn _ hc) (Nat.not_lt.mpr hN)

lemma Grounded.extends_slotOf (h : c.Grounded) (hs : c.slotOf n = (x, c')) :
    Extends N [n] c c' := by
  rcases hc : c.nodeType? n with _ | y
  · exact h.extends_place (.slotOf hc hs)
  · rw [slotOf_of_some hc] at hs
    cases hs
    exact (Extends.refl h).mono (by simp)

lemma Grounded.extends_bind_low (h : c.Grounded)
    (hn : ∀ z, c.nodeType? n = some z → z < N) (hb : c.bind n y = (x, c')) :
    Extends N [n] c c' := by
  rcases hc : c.nodeType? n with _ | z
  · exact h.extends_place (.bind hc hb)
  · rw [bind_of_some hc] at hb
    cases hb
    refine (h.extends_types (by simp) fun z hN _ => ?_).mono (by simp)
    refine c.types.get_assign_of_ne ?_
    rintro rfl
    exact absurd (hn _ hc) (Nat.not_lt.mpr hN)

/-- The nodes of `ns` that have a slot have one below `N`. -/
def Low (N : Nat) (ns : List NodeId) (c : Context) : Prop :=
  ∀ n ∈ ns, ∀ x, c.nodeType? n = some x → x < N

/-- Annotations whose nodes have slots below `N`, or none. -/
lemma Annotates.extends (h : c.Annotates ns c') (hc : c.Grounded) (hlow : Low N ns c) :
    Extends N ns c c' := by
  -- a node has not been given a type before, so its slot is the one it had in `c`
  have hstep : ∀ {ms n c1 c2}, Extends N ms c c1 → n ∉ ms → Low N (n :: ms) c →
      (c1.Grounded → (∀ y, c1.nodeType? n = some y → y < N) → Extends N [n] c1 c2) →
        Extends N (n :: ms) c c2 := by
    intro ms n c1 c2 h1 hn hlow h2
    refine (h1.trans (h2 h1.grounded fun y hy => ?_)).mono (by simp [or_comm])
    rw [h1.nodeType?_eq hn] at hy
    exact hlow n List.mem_cons_self y hy
  induction h with
  | refl => exact .refl hc
  | alloc _ shape ih =>
    have h1 := ih hlow
    simpa using h1.trans (h1.grounded.extends_alloc shape)
  | lookup _ hd hs ih =>
    have h1 := ih hlow
    obtain ⟨y, hy⟩ := h1.grounded.declared hd
    rw [slotOf_of_some hy] at hs
    cases hs
    exact h1
  | slotOf _ hn hs ih =>
    exact hstep (ih (List.forall_mem_cons.mp hlow).2) hn hlow fun hg _ => hg.extends_slotOf hs
  | bind _ hn _ _ hb ih =>
    exact hstep (ih (List.forall_mem_cons.mp hlow).2) hn hlow fun hg hy =>
      hg.extends_bind_low hy hb
  | setShape _ hn _ hs ih =>
    exact hstep (ih (List.forall_mem_cons.mp hlow).2) hn hlow fun hg hy =>
      hg.extends_setShape hy hs
  | mono _ hsub ih => exact (ih fun n hn => hlow n (hsub n hn)).mono hsub

/-- Where the result of a function type has come from while an annotation was resolved: from a
function type in a slot of `K`, or it is new, or it belongs to a node of the annotation. -/
def Traced (K : Slot → Prop) (c : Context) (ns : List NodeId) (c' : Context) (r : Slot) : Prop :=
  (∃ y ps, K y ∧ c.types.get y = .function r ps) ∨
    c.types.size ≤ r ∧ r < c'.types.size ∨ ∃ m ∈ ns, c'.nodeType? m = some r

lemma Traced.mono (h : Traced K c ms c1 r) (hsub : ∀ n ∈ ms, n ∈ ns)
    (hsize : c1.types.size ≤ c2.types.size)
    (hn : ∀ n x, c1.nodeType? n = some x → c2.nodeType? n = some x) : Traced K c ns c2 r := by
  rcases h with h | ⟨hle, hlt⟩ | ⟨m, hm, hmr⟩
  · exact .inl h
  · exact .inr (.inl ⟨hle, hlt.trans_le hsize⟩)
  · exact .inr (.inr ⟨m, hsub m hm, hn m r hmr⟩)

/-- A further step of an annotation. -/
lemma Traced.grows {P : Shape → Prop} (h : Traced K c ms c1 r)
    (hg : Grows P c1 c2) : Traced K c (n :: ms) c2 r :=
  h.mono (fun _ hm => List.mem_cons_of_mem _ hm) hg.size_le hg.nodeType

/-- The results of the function types in `K`, to which the slots of all declared types belong. -/
lemma Annotates.traced (h : c.Annotates ns c') (hc : c.Grounded) (hlow : Low N ns c)
    (hK : ∀ x, K x → x < c.types.size)
    (hdecl : ∀ symbol y, symbol.kind = .type → c.Declares symbol →
      c.nodeType? symbol.declaration = some y → K y) :
    ∀ x r ps, K x → c'.types.get x = .function r ps → Traced K c ns c' r := by
  induction h with
  | refl => exact fun x r ps hx hget => .inl ⟨x, ps, hx, hget⟩
  | @alloc _ c1 h shape ih =>
    intro x r ps hx hget
    have hlt : x < c1.types.size := (hK x hx).trans_le h.size_le
    rw [Context.alloc, TypeStore.get_alloc_of_lt _ _ hlt] at hget
    exact (ih hlow x r ps hx hget).mono (fun _ h => h) (by simp [Context.alloc]) fun _ _ h => h
  | lookup h hd hs ih =>
    obtain ⟨y, hy⟩ := (h.extends hc hlow).grounded.declared hd
    rw [slotOf_of_some hy] at hs
    cases hs
    exact ih hlow
  | @slotOf _ c1 c2 n _ h _ hs ih =>
    intro x r ps hx hget
    have hlow' := (List.forall_mem_cons.mp hlow).2
    have hext : Extends 0 [n] c1 c2 := (h.extends hc hlow').grounded.extends_slotOf hs
    rw [hext.old x (Nat.zero_le x) ((hK x hx).trans_le h.size_le)] at hget
    exact (ih hlow' x r ps hx hget).mono (fun _ hm => List.mem_cons_of_mem _ hm) hext.size_le
      hext.nodeType
  | @bind _ c1 c2 n d name z y h _ hd hy hb ih =>
    intro x r ps hx hget
    have hlow' := (List.forall_mem_cons.mp hlow).2
    have hext := h.extends hc hlow'
    have hg : Grows (fun _ => True) c1 c2 :=
      (Check.within_bindNode _ _).of_runs (Check.runs_bindNode.mpr hb)
    rcases hn : c1.nodeType? n with _ | _
    · rw [bind_of_none hn] at hb
      cases hb
      exact (ih hlow' x r ps hx hget).grows hg
    · rw [bind_of_some hn] at hb
      cases hb
      -- the copy is that of a declared type, whose slot is in `K`
      have hKy : K y := by
        obtain ⟨symbol, id, sc, hsc, hmem, hkind, -, rfl⟩ := exists_of_declarationOf? hd
        have hsymbol := hext.symbols symbol hkind ⟨id, sc, hsc, hmem⟩
        obtain ⟨id', sc', hsc', hmem'⟩ := hsymbol
        obtain ⟨y', hy'⟩ := hc.symbols id' sc' hsc' symbol hmem'
        obtain rfl : y' = y := Option.some.inj ((hext.nodeType _ y' hy').symm.trans hy)
        exact hdecl symbol y' hkind ⟨id', sc', hsc', hmem'⟩ hy'
      rcases c1.types.get_assign_cases z y x with heq | heq
      · exact (ih hlow' y r ps hKy (heq.symm.trans hget)).grows hg
      · exact (ih hlow' x r ps hx (heq.symm.trans hget)).grows hg
  | @setShape _ c1 c2 n _ shape h _ hr hs ih =>
    intro x r ps hx hget
    have hlow' := (List.forall_mem_cons.mp hlow).2
    have hlt : x < c1.types.size := (hK x hx).trans_le h.size_le
    have hg : Grows (fun _ => True) c1 c2 :=
      (Check.within_setShape trivial).of_runs (Check.runs_setShape.mpr hs)
    rcases hn : c1.nodeType? n with _ | z
    · rw [(Places.setShape hn hs).old x hlt] at hget
      exact (ih hlow' x r ps hx hget).grows hg
    · rw [setShape_of_some hn] at hs
      cases hs
      rcases c1.types.get_set_cases _ x shape with heq | heq
      · have htraced : Traced K c _ c1 r := .inr (hr r ps (heq.symm.trans hget))
        exact htraced.grows hg
      · exact (ih hlow' x r ps hx (heq.symm.trans hget)).grows hg
  | mono _ hsub ih =>
    intro x r ps hx hget
    exact (ih (fun n hn => hlow n (hsub n hn)) x r ps hx hget).mono hsub le_rfl fun _ _ h => h

end Context

/-! ### Variables that are resolved on demand -/

/-- The plan is for the variables in `vars`, whose nodes are apart from each other. -/
structure Plan.Covers (plan : Plan) (vars : List VariableDecl) : Prop where
  pending : ∀ n q, plan.pending.get? n = some q → q.decl ∈ vars ∧ q.decl.id = n
  nodup : ∀ v ∈ vars, v.nodes.Nodup
  unique : ∀ v ∈ vars, ∀ w ∈ vars, w.id = v.id → w = v
  apart : ∀ v ∈ vars, ∀ w ∈ vars, v.id ≠ w.id →
    List.Disjoint (Expr.nodes? v.value) (Expr.nodes? w.value)

/-- What the walk over variables and bodies begins with: the nodes of signatures, all of which have
slots, and the variables that are to be resolved. `r` says that the slots of all classes and enums
are known by name. -/
structure Groundwork where
  r : Prop
  layout : List (NodeId × Tag)
  vars : List VariableDecl
  start : Context
  tags : ∀ v ∈ vars, ∀ t ∈ (Decl.var v).tags, t ∈ layout
  apart : ∀ v ∈ vars, ∀ w ∈ vars, v ≠ w →
    List.Disjoint (Decl.var v).signature (Decl.var w).signature
  typed : ∀ n ∈ layout.map Prod.fst, ∃ x, start.nodeType? n = some x ∧ x < start.types.size
  arranged : start.Arranged layout
  named : r → start.Named layout

namespace Groundwork

variable {G : Groundwork} {v : VariableDecl} {n : NodeId} {x : Slot}

/-- The slots of signatures have numbers below this one. -/
def size (G : Groundwork) : Nat :=
  G.start.types.size

/-- The slot is that of the variable or of a part of its annotation, and not of a class or enum. -/
def Owns (G : Groundwork) (v : VariableDecl) (x : Slot) : Prop :=
  ∃ n ∈ v.id :: TypeExpr.nodes? v.type, G.start.nodeType? n = some x ∧
    ∀ name, ¬ Context.TypeSlot G.layout G.start name x

lemma key (hv : v ∈ G.vars) (hn : n ∈ v.id :: TypeExpr.nodes? v.type) :
    n ∈ G.layout.map Prod.fst :=
  keys_of_tags (Decl.tags_fst _) (G.tags v hv) n hn

lemma Owns.lt (hv : v ∈ G.vars) (h : G.Owns v x) : x < G.size := by
  obtain ⟨n, hn, hx, -⟩ := h
  obtain ⟨y, hy, hlt⟩ := G.typed n (key hv hn)
  obtain rfl : x = y := Option.some.inj (hx.symm.trans hy)
  exact hlt

/-- A variable owns its slot. -/
lemma owns (hv : v ∈ G.vars) (hx : G.start.nodeType? v.id = some x) : G.Owns v x := by
  have htag : (v.id, Tag.variable) ∈ G.layout := G.tags v hv _ List.mem_cons_self
  exact ⟨v.id, List.mem_cons_self, hx, G.arranged.private_not_type (.inr htag) hx⟩

/-- No variable owns the slot of a node that is none of its own. -/
lemma not_owns (hn : n ∈ G.layout.map Prod.fst)
    (hvar : ∀ v ∈ G.vars, n ∉ v.id :: TypeExpr.nodes? v.type) (hx : G.start.nodeType? n = some x) :
    ∀ v ∈ G.vars, ¬ G.Owns v x := by
  rintro v hv ⟨m, hm, hmx, htype⟩
  have hne : m ≠ n := fun heq => hvar v hv (heq ▸ hm)
  -- the two nodes share the slot, which then is that of a class or an enum
  obtain ⟨name, hslot⟩ := G.arranged.shared m n x (G.key hv hm) hn hne hmx hx
  exact htype name hslot

/-- A slot of signatures that is not that of a variable without annotation. -/
def Fixed (G : Groundwork) (x : Slot) : Prop :=
  x < G.size ∧ ∀ v ∈ G.vars, v.type = none → G.start.nodeType? v.id ≠ some x

lemma fixed_type {name : String} (hx : Context.TypeSlot G.layout G.start name x) : G.Fixed x := by
  have hx' := hx
  obtain ⟨d, hd, hdx⟩ := hx
  obtain ⟨y, hy, hlt⟩ := G.typed d (Context.mem_keys hd)
  obtain rfl : x = y := Option.some.inj (hdx.symm.trans hy)
  refine ⟨hlt, fun v hv _ hvx => ?_⟩
  have htag : (v.id, Tag.variable) ∈ G.layout := G.tags v hv _ List.mem_cons_self
  exact G.arranged.private_not_type (.inr htag) hvx name hx'

/-- The nodes of a variable that is annotated. -/
lemma mem_written (hn : n ∈ (Decl.var v).written) :
    v.type ≠ none ∧ n ∈ (Decl.var v).signature := by
  rcases htype : v.type with _ | type
  · simp [Decl.written, htype] at hn
  · refine ⟨by simp, ?_⟩
    simpa [Decl.written, Decl.signature, TypeExpr.nodes?, htype] using hn

/-- The nodes of a variable declare no types. -/
lemma plain (G : Groundwork) (hv : v ∈ G.vars) :
    ∀ n ∈ (Decl.var v).written, ∀ name, (n, Tag.type name) ∉ G.layout := by
  have htags : ∀ p ∈ [Decl.var v].flatMap Decl.tags, p ∈ G.layout := by simpa using G.tags v hv
  simpa using Decl.flatMap_written_plain G.arranged.nodup htags

/-- The slots of an annotated variable. -/
lemma fixed_annotated (hv : v ∈ G.vars) (htype : v.type ≠ none)
    (hn : n ∈ (Decl.var v).signature) (hx : G.start.nodeType? n = some x) : G.Fixed x := by
  have hkey := G.key hv hn
  obtain ⟨y, hy, hlt⟩ := G.typed n hkey
  obtain rfl : x = y := Option.some.inj (hx.symm.trans hy)
  refine ⟨hlt, fun w hw hnone hwx => ?_⟩
  have htag : (w.id, Tag.variable) ∈ G.layout := G.tags w hw _ List.mem_cons_self
  obtain rfl : n = w.id := G.arranged.private_own (.inr htag) hwx hkey hx
  refine G.apart v hv w hw ?_ hn List.mem_cons_self
  rintro rfl
  exact htype hnone

end Groundwork

namespace Resolving

open Context

variable {G : Groundwork} {ms ns : List NodeId} {s s1 s2 s' : Resolving} {n : NodeId}
  {c : Context} {x y : Slot} {v : VariableDecl} {N : Nat} {P : Slot → Prop}

/-- The slot is the result of a function type in a signature. -/
def Pinned (G : Groundwork) (s : Resolving) (r : Slot) : Prop :=
  ∃ x ps, G.Fixed x ∧ s.types.get x = .function r ps

/-- The slot is new since `s`, and not the result of a function type in a signature. -/
def Loose (G : Groundwork) (s s' : Resolving) (x : Slot) : Prop :=
  s.types.size ≤ x ∧ x < s'.types.size ∧ ¬ Pinned G s' x

/-- The annotations of variables hold what they say. -/
def Lettered (G : Groundwork) (s : Resolving) : Prop :=
  ∀ v ∈ G.vars, Signed G.layout (Decl.var v).annotated s.toContext

/-- A state of the walk: the nodes of signatures have the slots that they had when it began, and
these hold what they held, up to which of two classes or enums of one name it is, unless they
belong to a variable that has been begun; the value of a
variable has no types as long as it waits, and a variable that has been begun has a slot. -/
structure Footing (G : Groundwork) (s : Resolving) : Prop where
  grounded : s.Grounded
  le : G.size ≤ s.types.size
  nodes : ∀ n ∈ G.layout.map Prod.fst, s.nodeType? n = G.start.nodeType? n
  waiting : ∀ v ∈ G.vars, s.Waits v → ∀ n ∈ Expr.nodes? v.value, s.nodeType? n = none
  symbols : ∀ symbol, symbol.kind = .type → s.Declares symbol →
    (symbol.declaration, Tag.type symbol.name) ∈ G.layout
  kept : G.r → ∀ x, x < G.size →
    (G.start.types.get x).Stays (Unambiguous G.layout) (s.types.get x) ∨
      ∃ v ∈ G.vars, ¬ s.Waits v ∧ G.Owns v x
  taken : ∀ n, n ∈ s.resolved ∨ n ∈ s.resolving → ∃ x, s.nodeType? n = some x
  pinned : ∀ r, Pinned G s r → r < s.types.size

/-- `s'` is what became of `s` when the nodes in `ns` were given types, and some variables were
resolved that waited. -/
structure Advances (G : Groundwork) (ns : List NodeId) (s s' : Resolving) : Prop where
  le : G.size ≤ s.types.size
  footing : Footing G s'
  size_le : s.types.size ≤ s'.types.size
  nodeType : ∀ n x, s.nodeType? n = some x → s'.nodeType? n = some x
  fresh : ∀ n, s.nodeType? n = none → ∀ x, s'.nodeType? n = some x →
    n ∈ ns ∨ ∃ v ∈ G.vars, s.Waits v ∧ ¬ s'.Waits v ∧ n ∈ Expr.nodes? v.value
  old : ∀ x, G.size ≤ x → x < s.types.size → s'.types.get x = s.types.get x
  low : G.r → ∀ x, x < G.size → (s.types.get x).Stays (Unambiguous G.layout) (s'.types.get x) ∨
    ∃ v ∈ G.vars, s.Waits v ∧ ¬ s'.Waits v ∧ G.Owns v x
  owned : ∀ n, (s.scopeOf? n).isSome → (s'.scopeOf? n).isSome
  homes : ∀ n kind, n ∉ ns → (∀ v ∈ G.vars, n ∉ v.nodes) → s.Homes n kind → s'.Homes n kind
  resolving : s'.resolving = s.resolving
  resolved : ∀ n ∈ s.resolved, n ∈ s'.resolved
  pinned : ∀ r, Pinned G s' r → Pinned G s r ∨ s.types.size ≤ r ∨ G.Fixed r
  lettered : G.r → Lettered G s → Lettered G s'

/-- The nodes have no types yet, and are not part of a variable that waits. -/
def Fresh (vars : List VariableDecl) (ns : List NodeId) (s : Resolving) : Prop :=
  ∀ n ∈ ns, s.nodeType? n = none ∧ ∀ v ∈ vars, s.Waits v → n ∉ Expr.nodes? v.value

namespace Footing

variable {name : String}

/-- A slot that no variable owns holds what it held, up to which of two classes or enums of one
name it is. -/
lemma stays (h : Footing G s) (hr : G.r) (hx : x < G.size) (hown : ∀ v ∈ G.vars, ¬ G.Owns v x) :
    (G.start.types.get x).Stays (Unambiguous G.layout) (s.types.get x) :=
  (h.kept hr x hx).resolve_right fun ⟨v, hv, _, h⟩ => hown v hv h

/-- The nodes of a variable that is to be resolved have slots from the beginning. -/
lemma declared (h : Footing G s) (hv : v ∈ G.vars) (hn : n ∈ v.id :: TypeExpr.nodes? v.type) :
    ∃ x, s.nodeType? n = some x ∧ G.start.nodeType? n = some x ∧ x < G.size := by
  obtain ⟨x, hx, hlt⟩ := G.typed n (G.key hv hn)
  exact ⟨x, (h.nodes n (G.key hv hn)).trans hx, hx, hlt⟩

lemma typeSlot_iff (h : Footing G s) :
    TypeSlot G.layout s.toContext name x ↔ TypeSlot G.layout G.start name x := by
  constructor <;> rintro ⟨d, hd, hx⟩ <;> refine ⟨d, hd, ?_⟩
  · rwa [← h.nodes d (mem_keys hd)]
  · rwa [h.nodes d (mem_keys hd)]

/-- The slot of a class or an enum holds what it held, or another one of the same name. -/
lemma type_stays (h : Footing G s) (hr : G.r) (hx : TypeSlot G.layout G.start name x) :
    (G.start.types.get x).Stays (Unambiguous G.layout) (s.types.get x) := by
  obtain ⟨d, hd, hdx⟩ := hx
  obtain ⟨y, hy, hlt⟩ := G.typed d (mem_keys hd)
  obtain rfl : x = y := Option.some.inj (hdx.symm.trans hy)
  exact h.stays hr hlt fun v _ ⟨n, _, _, htype⟩ => htype name ⟨d, hd, hdx⟩

lemma type_kept (h : Footing G s) (hr : G.r) (hu : Unambiguous G.layout)
    (hx : TypeSlot G.layout G.start name x) : s.types.get x = G.start.types.get x :=
  (h.type_stays hr hx).eq hu

lemma arranged (h : Footing G s) (hr : G.r) : s.Arranged G.layout := by
  have ha := G.arranged
  refine ⟨ha.nodup, fun n x hn hx => ?_, fun id sc hsc symbol hmem hk => ?_,
    fun m n x hm hn hne hmx hnx => ?_, fun d name n x hd hn hdx hnx => ?_, fun name x hx => ?_⟩
  · rw [h.nodes n hn] at hx
    exact (ha.lt n x hn hx).trans_le h.le
  · exact h.symbols symbol hk ⟨id, sc, hsc, hmem⟩
  · rw [h.nodes m hm] at hmx
    rw [h.nodes n hn] at hnx
    exact (ha.shared m n x hm hn hne hmx hnx).imp fun _ => h.typeSlot_iff.mpr
  · rw [h.nodes d (mem_keys hd)] at hdx
    rw [h.nodes n hn] at hnx
    exact ha.own d name n x hd hn hdx hnx
  · have hx := h.typeSlot_iff.mp hx
    have hstays := h.type_stays hr hx
    rcases ha.nominal name x hx with hget | hname
    · exact .inl ((hstays.eq_of_plain (by rw [hget]; rfl)).trans hget)
    · exact .inr (hstays.nominalName?.trans hname)

lemma named (h : Footing G s) (hr : G.r) : s.Named G.layout := by
  intro d name hd
  obtain ⟨x, hx, hname⟩ := G.named hr d name hd
  refine ⟨x, (h.nodes d (mem_keys hd)).trans hx, ?_⟩
  rwa [(h.type_stays hr ⟨d, hd, hx⟩).nominalName?]

/-- What the annotations of variables hold is kept as long as the slots of signatures hold what they
held, and the results of function types, where none is written, stay void. -/
lemma lettered_kept (hs : Footing G s) (hl : Lettered G s)
    (hn : ∀ n x, s.nodeType? n = some x → c.nodeType? n = some x)
    (hget : ∀ x, G.Fixed x → (s.types.get x).Stays (Unambiguous G.layout) (c.types.get x))
    (hvoid : ∀ r, Pinned G s r → s.types.get r = .void →
      (∀ n ∈ G.layout.map Prod.fst, s.nodeType? n ≠ some r) → c.types.get r = .void) :
    Lettered G { s with toContext := c } := by
  intro v hv
  have hconfined := (Decl.var v).confined_annotated
  have hfixed : ∀ m ∈ (Decl.var v).written, ∀ x, s.nodeType? m = some x → G.Fixed x := by
    intro m hm x hx
    obtain ⟨htype, hm⟩ := Groundwork.mem_written hm
    rw [hs.nodes m (G.key hv hm)] at hx
    exact G.fixed_annotated hv htype hm hx
  refine (hl v hv).kept hn (fun n hn' => ?_) (fun name y hy => ?_) (fun p hp => ?_)
    (fun p hp m hm x hx => ?_) fun p hp x r ps hx hget' hresult => ?_
  · obtain ⟨x, hx, -⟩ := G.typed n hn'
    have hx := (hs.nodes n hn').trans hx
    rw [hn n x hx, hx]
  · exact hget y (G.fixed_type (hs.typeSlot_iff.mp hy))
  · exact G.plain hv _ (hconfined p hp).1
  · have hm : m ∈ (Decl.var v).written := by
      rcases List.mem_cons.mp hm with rfl | hm
      · exact (hconfined p hp).1
      · exact (hconfined p hp).2 m hm
    exact hget x (hfixed m hm x hx)
  · exact hvoid r ⟨x, ps, hfixed _ (hconfined p hp).1 x hx, hget'⟩ hresult.1 hresult.2

end Footing

namespace Advances

lemma refl (h : Footing G s) : Advances G [] s s :=
  ⟨h.le, h, le_rfl, fun _ _ h => h, fun _ hn _ hx => absurd (hn.symm.trans hx) (by simp),
    fun _ _ _ => rfl, fun _ _ _ => .inl (.refl _), fun _ h => h, fun _ _ _ _ h => h, rfl,
    fun _ h => h, fun _ h => .inl h, fun _ h => h⟩

/-- What waits after a step has waited before it. -/
lemma waits (h : Advances G ns s s') (hv : s'.Waits v) : s.Waits v :=
  ⟨fun hm => hv.1 (h.resolved _ hm), by rw [← h.resolving]; exact hv.2⟩

lemma trans (h1 : Advances G ms s s1) (h2 : Advances G ns s1 s2) :
    Advances G (ms ++ ns) s s2 := by
  refine ⟨h1.le, h2.footing, h1.size_le.trans h2.size_le,
    fun n x h => h2.nodeType n x (h1.nodeType n x h), ?_, ?_, ?_,
    fun n h => h2.owned n (h1.owned n h), ?_, h2.resolving.trans h1.resolving,
    fun n hn => h2.resolved n (h1.resolved n hn), ?_,
    fun hr h => h2.lettered hr (h1.lettered hr h)⟩
  · intro n hn x hx
    rcases hn1 : s1.nodeType? n with _ | y
    · rcases h2.fresh n hn1 x hx with hm | ⟨v, hv, hw, hw', hm⟩
      · exact .inl (List.mem_append_right _ hm)
      · exact .inr ⟨v, hv, h1.waits hw, hw', hm⟩
    · rcases h1.fresh n hn y hn1 with hm | ⟨v, hv, hw, hw', hm⟩
      · exact .inl (List.mem_append_left _ hm)
      · exact .inr ⟨v, hv, hw, fun h => hw' (h2.waits h), hm⟩
  · intro x hN hx
    rw [h2.old x hN (hx.trans_le h1.size_le), h1.old x hN hx]
  · intro hr x hx
    rcases h1.low hr x hx with heq | ⟨v, hv, hw, hw', hown⟩
    · rcases h2.low hr x hx with heq' | ⟨v, hv, hw, hw', hown⟩
      · exact .inl (heq.trans heq')
      · exact .inr ⟨v, hv, h1.waits hw, hw', hown⟩
    · exact .inr ⟨v, hv, hw, fun h => hw' (h2.waits h), hown⟩
  · intro n kind hn hv h
    obtain ⟨hm, hn⟩ := not_or.mp (mt List.mem_append.mpr hn)
    exact h2.homes n kind hn hv (h1.homes n kind hm hv h)
  · intro r hr
    rcases h2.pinned r hr with hr | hle | hlt
    · exact h1.pinned r hr
    · exact .inr (.inl (h1.size_le.trans hle))
    · exact .inr (.inr hlt)

lemma mono (h : Advances G ms s s') (hsub : ∀ n ∈ ms, n ∈ ns) : Advances G ns s s' :=
  { h with
    fresh := fun n hn x hx => (h.fresh n hn x hx).imp_left (hsub n)
    homes := fun n kind hn => h.homes n kind fun hm => hn (hsub n hm) }

end Advances

lemma Fresh.advances (h : Fresh G.vars ns s) (ha : Advances G ms s s')
    (hdisjoint : List.Disjoint ms ns) : Fresh G.vars ns s' := by
  intro n hn
  obtain ⟨hnone, hvars⟩ := h n hn
  refine ⟨?_, fun v hv hw => hvars v hv (ha.waits hw)⟩
  rcases hx : s'.nodeType? n with _ | x
  · rfl
  · rcases ha.fresh n hnone x hx with hm | ⟨v, hv, hw, -, hm⟩
    · exact absurd hn (hdisjoint hm)
    · exact absurd hm (hvars v hv hw)

lemma Fresh.mono {vars : List VariableDecl} (h : Fresh vars ns s) (hsub : ∀ n ∈ ms, n ∈ ns) :
    Fresh vars ms s :=
  fun n hn => h n (hsub n hn)

/-- The nodes of signatures keep their slots. -/
lemma Footing.nodes_of_extends (h : Footing G s) (hc : Extends N ns s.toContext c) :
    ∀ n ∈ G.layout.map Prod.fst, c.nodeType? n = G.start.nodeType? n := by
  intro n hn
  obtain ⟨x, hx, -⟩ := G.typed n hn
  rw [hx]
  exact hc.nodeType n x ((h.nodes n hn).trans hx)

/-- The value of a variable that waits has no types when the step comes to other nodes. -/
lemma Footing.waiting_of_extends (h : Footing G s) (hc : Extends N ns s.toContext c)
    (hns : ∀ n ∈ ns, ∀ v ∈ G.vars, s.Waits v → n ∉ Expr.nodes? v.value) :
    ∀ v ∈ G.vars, s.Waits v → ∀ n ∈ Expr.nodes? v.value, c.nodeType? n = none := by
  intro v hv hw n hn
  rcases hx : c.nodeType? n with _ | x
  · rfl
  · exact absurd hn (hns n (hc.fresh n (h.waiting v hv hw n hn) x hx) v hv hw)

/-- The results of function types, where the slots of signatures have not changed. -/
lemma Pinned.of_get {r : Slot} (h : Pinned G s' r)
    (hget : ∀ x, G.Fixed x → s'.types.get x = s.types.get x) : Pinned G s r := by
  obtain ⟨x, ps, hx, hr⟩ := h
  exact ⟨x, ps, hx, (hget x hx).symm.trans hr⟩

/-- A slot that has just been allocated. -/
lemma Footing.loose (h : Footing G s1) (hsize : s.types.size ≤ s1.types.size)
    (hget : ∀ y < s1.types.size, c.types.get y = s1.types.get y) (hle : s1.types.size ≤ x)
    (hlt : x < c.types.size) : Loose G s { s1 with toContext := c } x := by
  refine ⟨hsize.trans hle, hlt, fun hp => ?_⟩
  have hp' : Pinned G s1 x := hp.of_get fun y hy => hget y (hy.1.trans_le h.le)
  exact absurd (h.pinned x hp') (Nat.not_lt.mpr hle)

lemma Loose.before (h : Loose G s1 s2 x) (hsize : s.types.size ≤ s1.types.size) : Loose G s s2 x :=
  ⟨hsize.trans h.1, h.2⟩

lemma Loose.after (h : Loose G s s1 x) (hs : G.size ≤ s.types.size) (ha : Advances G ns s1 s2) :
    Loose G s s2 x := by
  obtain ⟨hle, hlt, hfree⟩ := h
  refine ⟨hle, hlt.trans_le ha.size_le, fun hp => ?_⟩
  rcases ha.pinned x hp with hp | hge | ⟨hlow, -⟩
  · exact hfree hp
  · exact absurd hlt (Nat.not_lt.mpr hge)
  · exact absurd (hs.trans hle) (Nat.not_le.mpr hlow)

lemma Loose.writes (h : Loose G s s1 x) (hw : Writes P s1.toContext c)
    (hP : ∀ y, P y → ¬ G.Fixed y) : Loose G s { s1 with toContext := c } x :=
  ⟨h.1, h.2.1.trans_eq hw.size.symm, fun hp => h.2.2 <|
    hp.of_get fun y hy => hw.get y fun hPy => hP y hPy hy⟩

/-- A step on the context alone. -/
lemma Advances.of_extends (h : Footing G s) (hc : Extends 0 ns s.toContext c)
    (hns : ∀ n ∈ ns, ∀ v ∈ G.vars, s.Waits v → n ∉ Expr.nodes? v.value) :
    Advances G ns s { s with toContext := c } := by
  have hget : ∀ x, x < s.types.size → c.types.get x = s.types.get x :=
    fun x hx => hc.old x (Nat.zero_le x) hx
  have hpinned : ∀ r, Pinned G { s with toContext := c } r → Pinned G s r := fun r hp =>
    hp.of_get fun x hx => hget x (hx.1.trans_le h.le)
  refine ⟨h.le, ⟨hc.grounded, h.le.trans hc.size_le, h.nodes_of_extends hc,
    h.waiting_of_extends hc hns,
    fun t ht hd => h.symbols t ht (hc.symbols t ht hd), fun hr x hx => ?_,
    fun n hn => (h.taken n hn).imp fun x => hc.nodeType n x,
    fun r hp => (h.pinned r (hpinned r hp)).trans_le hc.size_le⟩, hc.size_le, hc.nodeType,
    fun n hn x hx => .inl (hc.fresh n hn x hx), fun x _ => hget x,
    fun _ x hx => .inl (.inl (hget x (hx.trans_le h.le))), hc.owned,
    fun n kind hn _ => hc.homes n kind hn, rfl, fun _ h => h, fun r hp => .inl (hpinned r hp),
    fun _ hl => ?_⟩
  · rw [hget x (hx.trans_le h.le)]
    exact h.kept hr x hx
  · exact h.lettered_kept hl hc.nodeType (fun x hx => .inl (hget x (hx.1.trans_le h.le)))
      fun r hp hvoid _ => (hget r (h.pinned r hp)).trans hvoid

/-- The slot may be written after a step: it is new, or that of a variable without annotation that
waited. -/
def Writable (G : Groundwork) (s s' : Resolving) (x : Slot) : Prop :=
  Loose G s s' x ∨
    ∃ v ∈ G.vars, v.type = none ∧ s.Waits v ∧ ¬ s'.Waits v ∧ G.start.nodeType? v.id = some x

lemma Writable.not_fixed (h : Writable G s s' x) (hs : G.size ≤ s.types.size) : ¬ G.Fixed x := by
  rintro ⟨hlt, hfixed⟩
  rcases h with ⟨hle, -⟩ | ⟨v, hv, htype, -, -, hx⟩
  · exact absurd (hs.trans hle) (Nat.not_le.mpr hlt)
  · exact hfixed v hv htype hx

/-- Writing into slots that are new since `s`, or belong to a variable that waited in it. -/
lemma Advances.writes (h : Advances G ns s s1) (hw : Writes P s1.toContext c)
    (hP : ∀ x, P x → Writable G s s1 x) : Advances G ns s { s1 with toContext := c } := by
  have hlow : ∀ x, x < G.size → c.types.get x = s1.types.get x ∨
      ∃ v ∈ G.vars, s.Waits v ∧ ¬ s1.Waits v ∧ G.Owns v x := by
    intro x hx
    by_cases hp : P x
    · rcases hP x hp with ⟨hle, -⟩ | ⟨v, hv, -, hw, hw', hvx⟩
      · exact absurd (h.le.trans hle) (Nat.not_le.mpr hx)
      · exact .inr ⟨v, hv, hw, hw', G.owns hv hvx⟩
    · exact .inl (hw.get x hp)
  have hfixed : ∀ x, G.Fixed x → c.types.get x = s1.types.get x := fun x hx =>
    hw.get x fun hp => (hP x hp).not_fixed h.le hx
  have hpinned : ∀ r, Pinned G { s1 with toContext := c } r → Pinned G s1 r := fun r hp =>
    hp.of_get hfixed
  refine ⟨h.le, ⟨?_, h.footing.le.trans hw.size.ge, ?_, ?_, ?_, fun hr x hx => ?_,
    fun n hn => (h.footing.taken n hn).imp fun x hx => (hw.nodeType? n).trans hx,
    fun r hp => (h.footing.pinned r (hpinned r hp)).trans_eq hw.size.symm⟩,
    h.size_le.trans hw.size.ge, ?_, ?_, ?_, fun hr x hx => ?_, ?_, ?_, h.resolving, h.resolved,
    fun r hp => h.pinned r (hpinned r hp), fun hr hl => ?_⟩
  · rw [hw.rest]
    exact ⟨h.footing.grounded.symbols, h.footing.grounded.objects⟩
  · intro n hn
    exact (hw.nodeType? n).trans (h.footing.nodes n hn)
  · intro v hv hwaits n hn
    exact (hw.nodeType? n).trans (h.footing.waiting v hv hwaits n hn)
  · rw [hw.rest]
    exact h.footing.symbols
  · rcases hlow x hx with heq | ⟨v, hv, -, hw', hown⟩
    · rw [heq]
      exact h.footing.kept hr x hx
    · exact .inr ⟨v, hv, hw', hown⟩
  · intro n x hx
    exact (hw.nodeType? n).trans (h.nodeType n x hx)
  · intro n hn x hx
    exact h.fresh n hn x ((hw.nodeType? n).symm.trans hx)
  · intro x hN hx
    refine (hw.get x fun hp => ?_).trans (h.old x hN hx)
    rcases hP x hp with ⟨hle, -⟩ | ⟨v, hv, -, -, -, hvx⟩
    · exact absurd hx (Nat.not_lt.mpr hle)
    · exact absurd ((G.owns hv hvx).lt hv) (Nat.not_lt.mpr hN)
  · rcases hlow x hx with heq | hex
    · rw [heq]
      exact h.low hr x hx
    · exact .inr hex
  · rw [hw.rest]
    exact h.owned
  · rw [hw.rest]
    exact h.homes
  · refine h.footing.lettered_kept (h.lettered hr hl) (fun n x hx => (hw.nodeType? n).trans hx)
      (fun x hx => .inl (hfixed x hx)) fun r hp hvoid hfree => (hw.get r fun hPr => ?_).trans hvoid
    -- a result is not new, and it is the slot of no variable
    rcases hP r hPr with ⟨-, -, hnot⟩ | ⟨v, hv, -, -, -, hvr⟩
    · exact hnot hp
    · have hkey := G.key hv List.mem_cons_self
      exact hfree v.id hkey ((h.footing.nodes v.id hkey).trans hvr)

/-- What has been begun has a slot, if the variable has one. -/
lemma Footing.taken_done (h : Footing G s) (hv : ∃ x, s.nodeType? v.id = some x) (n : NodeId)
    (hn : n ∈ (s.done v).resolved ∨ n ∈ s.resolving) : ∃ x, s.nodeType? n = some x := by
  rcases hn with hn | hn
  · rcases List.mem_cons.mp hn with rfl | hn
    · exact hv
    · exact h.taken n (.inl hn)
  · exact h.taken n (.inr hn)

lemma Footing.done (h : Footing G s) (hv : ∃ x, s.nodeType? v.id = some x) :
    Footing G (s.done v) :=
  ⟨h.grounded, h.le, h.nodes, fun w hw hwaits => h.waiting w hw hwaits.of_done, h.symbols,
    fun hr x hx => (h.kept hr x hx).imp_right fun ⟨w, hw, hwaits, hown⟩ =>
      ⟨w, hw, fun hd => hwaits hd.of_done, hown⟩, h.taken_done hv, h.pinned⟩

lemma Advances.done (h : Footing G s) (hv : ∃ x, s.nodeType? v.id = some x) :
    Advances G [] s (s.done v) :=
  ⟨h.le, h.done hv, le_rfl, fun _ _ h => h, fun _ hn _ hx => absurd (hn.symm.trans hx) (by simp),
    fun _ _ _ => rfl, fun _ _ _ => .inl (.refl _), fun _ h => h, fun _ _ _ _ h => h, rfl,
    fun _ hm => List.mem_cons_of_mem _ hm, fun _ h => .inl h, fun _ h => h⟩

end Resolving

/-! ### Expressions -/

/-- The walk as a frame for expressions. -/
def Groundwork.frame (G : Groundwork) : Resolving.Frame where
  Sound := Resolving.Footing G
  Fresh := Resolving.Fresh G.vars
  Advances := Resolving.Advances G
  Loose := Resolving.Loose G
  sound h := h.footing
  size_le h := h.size_le
  nodeType h := h.nodeType _ _
  untyped h hn := (h _ hn).1
  fresh_mono h := h.mono
  fresh h ha hdisjoint := h.advances ha hdisjoint
  refl h := .refl h
  trans _ _ h1 h2 := h1.trans h2
  mono h := h.mono
  recent hs _ _ _ h2 x hx := h2.old x (hs.le.trans hx)
  place hs hfresh hp := .of_extends hs (hs.grounded.extends_place hp) fun n hn => (hfresh n hn).2
  declared hs hd h hslot := by
    obtain ⟨y, hy⟩ := hs.grounded.declared hd
    rw [Context.slotOf_of_some (h.nodeType _ y hy)] at hslot
    cases hslot
    exact h
  writes h hw := h.writes hw fun _ hx => .inl hx
  loose_place h hp hle hlt := h.footing.loose h.size_le hp.old hle hlt
  loose_writes h hw hx := hx.writes hw fun y hy hfixed =>
    absurd (h.le.trans hy.1) (Nat.not_le.mpr hfixed.1)
  loose_before h hx := hx.before h.size_le
  loose_after hs hx h := hx.after hs.le h

namespace Resolve

open Context Resolving

variable {G : Groundwork} {plan : Plan} {demand : NodeId → Resolve Unit}
  {s s1 s2 s' : Resolving} {x y : Slot} {n : NodeId} {c : Context} {e : Expr} {c' : Context}
  {ns : List NodeId} {stack : List ScopeId} {l : Location} {N : Nat} {d : NodeId} {kind : ScopeKind}
  {mode : ScopeMode} {name : String} {type : TypeExpr} {v : VariableDecl}

/-- What a demand may do. -/
abbrev DemandAdvances (G : Groundwork) (demand : NodeId → Resolve Unit) : Prop :=
  ∀ {s s' : Resolving} {n : NodeId}, Footing G s → Runs (demand n) s () s' →
    Advances G [] s s'

lemma DemandAdvances.attends (hd : DemandAdvances G demand) :
    Attends G.frame (fun _ y => y) demand demand :=
  Demands.attends (F := G.frame) hd

/-- **Footprint of an expression**: it gives types to its own nodes. -/
lemma footprint_expr (hd : DemandAdvances G demand) (ha : G.frame.Ahead e.nodes s)
    (h : Runs (expr plan demand e) s x s') : Advances G e.nodes s s' :=
  (resolves_expr (F := G.frame) hd ha h).advances

lemma footprint_operandOrType {b : Bool} (hd : DemandAdvances G demand)
    (ha : G.frame.Ahead e.nodes s) (h : Runs (operandOrType e (expr plan demand e)) s (x, b) s') :
    Advances G e.nodes s s' :=
  ((follows_operandOrType ha (follows_expr hd.attends ha)).value _ _ h).advances

/-- An expression together with the check that its value fits. -/
lemma footprint_checked {target found : Slot} {site : Site} (hd : DemandAdvances G demand)
    (ha : G.frame.Ahead e.nodes s) (h : Runs (expr plan demand e) s x s1)
    (hr : Runs (checkAssignable target e found site) s1.toContext () c) :
    Advances G e.nodes s { s1 with toContext := c } :=
  advances_checkAssignable (resolves_expr (F := G.frame) hd ha h) hr

lemma footprint_exprs {es : List Expr} {slots : List Slot} (hd : DemandAdvances G demand)
    (ha : G.frame.Ahead (Expr.nodesAll es) s) (h : Runs (exprs plan demand es) s slots s') :
    Advances G (Expr.nodesAll es) s s' :=
  ((follows_exprs hd.attends ha).value _ _ h).1

lemma footprint_fieldValues {vs : List FieldValue} {slots : List (String × Slot)}
    (hd : DemandAdvances G demand) (ha : G.frame.Ahead (FieldValue.nodesAll vs) s)
    (h : Runs (fieldValues plan demand vs) s slots s') : Advances G (FieldValue.nodesAll vs) s s' :=
  ((follows_fieldValues hd.attends ha).value _ _ h).1

lemma footprint_callArguments {arguments : List Expr} {params : List (String × Slot)} {i : Nat}
    {callee : String} (hd : DemandAdvances G demand)
    (ha : G.frame.Ahead (Expr.nodesAll arguments) s)
    (h : Runs (callArguments plan demand callee i arguments params) s () s') :
    Advances G (Expr.nodesAll arguments) s s' :=
  (follows_callArguments hd.attends ha).value _ _ h

/-! ### Variables -/

lemma homes_of_scope {id : ScopeId} (hid : c.scopeOf? n = some id)
    (h : ∃ sc, c.scope? id = some sc ∧ sc.kind = kind ∧ sc.node = n) : c.Homes n kind := by
  obtain ⟨sc, hsc, hk, hn⟩ := h
  exact ⟨id, sc, hid, hsc, hk, hn⟩

/-- A value gets a name. -/
lemma extends_declare (hc : c.Grounded) (hd : c.nodeType? d = some x)
    (h : Runs (Check.declare name .value d l) c () c') : Extends N [] c c' := by
  obtain ⟨id, sc, sc', unique, -, hsc, hinsert, rfl⟩ := Check.runs_declare h
  obtain ⟨hkind, hnode, hmem⟩ := Scope.insert?_cases hinsert
  have hscope : ∀ k sc1, (c.modifyScope id fun _ => sc').scope? k = some sc1 →
      c.scope? k = some sc1 ∨ sc1 = sc' := by
    intro k sc1 h
    rw [scope?_modifyScope] at h
    split at h
    · obtain ⟨-, -, rfl⟩ := Option.map_eq_some_iff.mp h
      exact .inr rfl
    · exact .inl h
  refine ⟨⟨?_, ?_⟩, le_rfl, fun _ _ h => h, fun n hn x hx => absurd (hn.symm.trans hx) (by simp),
    fun _ _ _ => rfl, fun _ h => h, ?_, ?_⟩
  · intro k sc1 hk symbol hs
    rcases hscope k sc1 hk with hk | rfl
    · exact hc.symbols k sc1 hk symbol hs
    · rcases hmem symbol hs with hs | rfl
      · exact hc.symbols id sc hsc symbol hs
      · exact ⟨x, hd⟩
  · intro k sc1 hk hkind1
    rcases hscope k sc1 hk with hk | rfl
    · exact hc.objects k sc1 hk hkind1
    · have := hc.objects id sc hsc (hkind.symm.trans hkind1)
      rwa [← hnode] at this
  · rintro n k - ⟨i, sc1, hi, hsc1, hk, hn⟩
    refine homes_of_scope hi ?_
    rw [scope?_modifyScope]
    split
    · next heq =>
      subst heq
      obtain rfl : sc = sc1 := Option.some.inj (hsc.symm.trans hsc1)
      exact ⟨sc', by rw [hsc]; rfl, hkind.trans hk, hnode.trans hn⟩
    · exact ⟨sc1, hsc1, hk, hn⟩
  · rintro symbol htype ⟨k, sc1, hk, hs⟩
    rcases hscope k sc1 hk with hk | rfl
    · exact ⟨k, sc1, hk, hs⟩
    · rcases hmem symbol hs with hs | rfl
      · exact ⟨id, sc, hsc, hs⟩
      · cases htype

/-- Where the results of function types have come from when the annotation of a variable has been
resolved once more. -/
lemma pinned_annotation (hs : Footing G s) (hv : v ∈ G.vars) (htype : v.type = some type)
    (hnd : type.nodes.Nodup) (hlow : Low G.size type.nodes s.toContext)
    (hr : Runs (type.resolve .strict) s.toContext x c) {r : Slot}
    (h : Pinned G { s with toContext := c.assign y x } r) :
    Pinned G s r ∨ s.types.size ≤ r ∧ r < c.types.size ∨ G.Fixed r := by
  have hannotates := TypeExpr.annotates_resolve hnd hr
  have hext := hannotates.extends hs.grounded hlow
  have hkey : ∀ n ∈ type.nodes, ∃ z, c.nodeType? n = some z ∧ G.Fixed z := by
    intro n hn
    have hn' : n ∈ (Decl.var v).signature := by
      rw [Decl.signature, htype]
      exact List.mem_cons_of_mem _ hn
    obtain ⟨z, hz, hstart, -⟩ := hs.declared hv hn'
    exact ⟨z, hext.nodeType n z hz, G.fixed_annotated hv (by simp [htype]) hn' hstart⟩
  obtain ⟨z, ps, hz, hget⟩ : ∃ z ps, G.Fixed z ∧ c.types.get z = .function r ps := by
    obtain ⟨z, ps, hz, hget⟩ := h
    rcases c.types.get_assign_cases y x z with heq | heq
    · obtain ⟨z', hz', hfixed⟩ := hkey _ type.node_mem_nodes
      obtain rfl : x = z' := Option.some.inj ((TypeExpr.nodeType?_resolve hr).symm.trans hz')
      exact ⟨x, ps, hfixed, heq.symm.trans hget⟩
    · exact ⟨z, ps, hz, heq.symm.trans hget⟩
  have hdecl : ∀ symbol z, symbol.kind = .type → s.Declares symbol →
      s.nodeType? symbol.declaration = some z → G.Fixed z := by
    intro symbol z hk hd hz
    have htag := hs.symbols symbol hk hd
    rw [hs.nodes _ (mem_keys htag)] at hz
    exact G.fixed_type ⟨_, htag, hz⟩
  rcases hannotates.traced hs.grounded hlow
    (fun z hz => hz.1.trans_le hs.le) hdecl z r ps hz hget with
    ⟨w, qs, hw, hget⟩ | hnew | ⟨m, hm, hmr⟩
  · exact .inl ⟨w, qs, hw, hget⟩
  · exact .inr (.inl hnew)
  · obtain ⟨w, hw, hfixed⟩ := hkey m hm
    obtain rfl : r = w := Option.some.inj (hmr.symm.trans hw)
    exact .inr (.inr hfixed)

/-- The annotation of a variable that waits is resolved once more. Its own slots may change, but
those of classes and enums do not. -/
lemma advances_annotation (hs : Footing G s) (hv : v ∈ G.vars) (hw : s.Waits v)
    (htype : v.type = some type) (hnd : (v.id :: type.nodes).Nodup)
    (hr : Runs (TypeExpr.resolveInto .strict v.id type) s.toContext y c) :
    Advances G [] s ({ s with toContext := c }.done v) ∧
      ∀ n, s.nodeType? n = none → c.nodeType? n = none := by
  have hsignature : (Decl.var v).signature =
      v.id :: type.nodes := by rw [Decl.signature, htype]; rfl
  have hmem : ∀ n ∈ type.nodes, n ∈ (Decl.var v).signature := by
    rw [hsignature]
    exact fun n => List.mem_cons_of_mem _
  have htags := G.tags v hv
  have hknows : G.r → Touches G.layout (v.id :: type.nodes) s.toContext c ∧
      Signed G.layout (Decl.var v).annotated c := by
    intro hknown
    obtain ⟨htag, ht⟩ := List.forall_mem_cons.mp htags
    rw [htype] at ht
    obtain ⟨htouch, -, hsigned⟩ := signed_declared (hs.arranged hknown)
      (hs.named hknown) (.inr htag) ht hnd hr
    rw [Decl.annotated, htype]
    exact ⟨htouch, hsigned⟩
  have hnd := (List.nodup_cons.mp hnd).2
  obtain ⟨x, c1, c2, hresolve, hslot, rfl⟩ := TypeExpr.runs_resolveInto.mp hr
  have hlow : Low G.size type.nodes s.toContext := by
    intro n hn z hz
    obtain ⟨z', hz', -, hlt⟩ := hs.declared hv (hmem n hn)
    obtain rfl : z = z' := Option.some.inj (hz.symm.trans hz')
    exact hlt
  obtain ⟨y', hy, -, hylt⟩ := hs.declared hv List.mem_cons_self
  have hext1 := (TypeExpr.annotates_resolve hnd hresolve).extends hs.grounded hlow
  rw [slotOf_of_some (hext1.nodeType _ _ hy)] at hslot
  cases hslot
  have hext : Extends G.size type.nodes s.toContext (c1.assign y x) := by
    have hassign : Extends G.size [] c1 (c1.assign y x) := by
      refine hext1.grounded.extends_types (by simp) fun z hN _ => c1.types.get_assign_of_ne ?_
      exact (hylt.trans_le hN).ne'
    simpa using hext1.trans hassign
  have hget : G.r → ∀ z, z < G.size →
      (s.types.get z).Stays (Unambiguous G.layout) ((c1.assign y x).types.get z) ∨ G.Owns v z := by
    intro hknown z hz
    obtain ⟨htouch, -⟩ := hknows hknown
    rcases htouch.get z (hz.trans_le hs.le) with hstays | ⟨n, hn, hk, hnz, hslot⟩ |
      ⟨n, hn, name, hd, -⟩
    · exact .inl hstays
    · rw [← hsignature] at hn
      refine .inr ⟨n, hn, (hs.nodes n hk).symm.trans hnz, fun name h => ?_⟩
      exact hslot name (hs.typeSlot_iff.mpr h)
    · refine absurd hd (G.plain hv n ?_ name)
      rw [Decl.written, htype]
      exact hn
  have hnone : ∀ n, s.nodeType? n = none → (c1.assign y x).nodeType? n = none := by
    intro n hn
    rw [hext.nodeType?_eq fun hm => ?_]
    · exact hn
    · obtain ⟨z, hz, -⟩ := hs.declared hv (hmem n hm)
      cases hn.symm.trans hz
  have hpinned : ∀ r, Pinned G { s with toContext := c1.assign y x } r →
      Pinned G s r ∨ s.types.size ≤ r ∧ r < c1.types.size ∨ G.Fixed r := fun r =>
    pinned_annotation hs hv htype hnd hlow hresolve
  refine ⟨⟨hs.le, ⟨hext.grounded, hs.le.trans hext.size_le, hs.nodes_of_extends hext, ?_,
    fun t ht h => hs.symbols t ht (hext.symbols t ht h), fun hknown z hz => ?_, fun n hn => ?_,
    fun r hr => ?_⟩, hext.size_le, hext.nodeType,
    fun n hn z hz => absurd ((hnone n hn).symm.trans hz) (by simp), hext.old,
    fun hknown z hz => ?_, hext.owned, ?_, rfl, fun _ hm => List.mem_cons_of_mem _ hm,
    fun r hr => ?_,
    fun hknown hl w hw' => ?_⟩, hnone⟩
  · intro w hw' hwaits n hn
    exact hnone n (hs.waiting w hw' hwaits.of_done n hn)
  · rcases hget hknown z hz with heq | hown
    · rcases hs.kept hknown z hz with hkept | ⟨w, hw', hwaits, hown⟩
      · exact .inl (hkept.trans heq)
      · exact .inr ⟨w, hw', fun h => hwaits h.of_done, hown⟩
    · exact .inr ⟨v, hv, not_waits_done, hown⟩
  · exact (hs.taken_done ⟨y, hy⟩ n hn).imp fun z => hext.nodeType n z
  · rcases hpinned r hr with hp | ⟨-, hlt⟩ | ⟨hlt, -⟩
    · exact (hs.pinned r hp).trans_le hext.size_le
    · exact hlt.trans_eq (TypeStore.size_assign _ _ _).symm
    · exact hlt.trans_le (hs.le.trans hext.size_le)
  · exact (hget hknown z hz).imp_right fun hown => ⟨v, hv, hw, not_waits_done, hown⟩
  · intro n kind _ hn
    refine hext.homes n kind fun hm => hn v hv ?_
    rw [VariableDecl.nodes, htype]
    exact List.mem_cons_of_mem _ (List.mem_append_left _ hm)
  · exact (hpinned r hr).imp_right (Or.imp_left And.left)
  · obtain ⟨htouch, hsigned⟩ := hknows hknown
    by_cases hvw : w = v
    · rw [hvw]
      exact hsigned
    · refine (hl w hw').apart (hs.arranged hknown) (Decl.var w).confined_annotated
        (fun n hn => G.key hw' (Groundwork.mem_written hn).2) htouch (fun n hn hn' => ?_)
        (.inr fun n hn => G.plain hv n ?_)
      · rw [← hsignature] at hn'
        exact G.apart w hw' v hv hvw (Groundwork.mem_written hn).2 hn'
      · rw [Decl.written, htype]
        exact hn

/-- What is done while a variable is under way. -/
lemma advances_settle (h : Advances G ns (s.begun v) s1) :
    Advances G ns (s.done v) (settle v.id s1) := by
  have hresolving : s1.resolving = v.id :: s.resolving := h.resolving
  have hwaits : ∀ w, (settle v.id s1).Waits w → s1.Waits w := fun w => waits_of_settle hresolving
  refine ⟨h.le, ⟨h.footing.grounded, h.footing.le, h.footing.nodes,
    fun w hw hwt => h.footing.waiting w hw (hwaits w hwt), h.footing.symbols, fun hr x hx => ?_,
    fun n hn => ?_, h.footing.pinned⟩, h.size_le, h.nodeType, fun m hm x hx => ?_, h.old,
    fun hr x hx => ?_, h.owned, h.homes, ?_, fun m hm => ?_, h.pinned, h.lettered⟩
  · rcases h.footing.kept hr x hx with hstays | ⟨w, hw, hw', hown⟩
    · exact .inl hstays
    · exact .inr ⟨w, hw, fun h => hw' (hwaits w h), hown⟩
  · refine h.footing.taken n ?_
    rw [settle, hresolving, List.mem_cons] at hn
    rw [hresolving, List.mem_cons]
    tauto
  · rcases h.fresh m hm x hx with hm | ⟨w, hw, hwt, hw', hm⟩
    · exact .inl hm
    · exact .inr ⟨w, hw, waits_begun.mp hwt, fun h => hw' (hwaits w h), hm⟩
  · rcases h.low hr x hx with hstays | ⟨w, hw, hwt, hw', hown⟩
    · exact .inl hstays
    · exact .inr ⟨w, hw, waits_begun.mp hwt, fun h => hw' (hwaits w h), hown⟩
  · rw [settle, hresolving]
    rfl
  · rcases List.mem_cons.mp hm with rfl | hm
    · exact List.mem_cons_self
    · exact List.mem_cons_of_mem _ (h.resolved m hm)

lemma footing_begun (h : Footing G (s.done v)) : Footing G (s.begun v) :=
  ⟨h.grounded, h.le, h.nodes, fun w hw hwaits => h.waiting w hw (waits_begun.mp hwaits), h.symbols,
    fun hr x hx => (h.kept hr x hx).imp_right fun ⟨w, hw, hwaits, hown⟩ =>
      ⟨w, hw, fun hb => hwaits (waits_begun.mp hb), hown⟩, fun n hn => by
    refine h.taken n ?_
    simp only [begun, done, List.mem_cons] at hn ⊢
    tauto, h.pinned⟩

/-- The variable is one that waits to be resolved, or a new one. -/
def Due (G : Groundwork) (v : VariableDecl) (s : Resolving) : Prop :=
  v ∈ G.vars ∧ s.Waits v ∨ Fresh G.vars (v.id :: TypeExpr.nodes? v.type) s

/-! ### Local variables -/

/-- The nodes of a local variable and of its annotation come on top of the layout. -/
abbrev layoutWith (G : Groundwork) (v : VariableDecl) : List (NodeId × Tag) :=
  G.layout ++ (Decl.var v).tags

/-- The annotation of a local variable holds what it says. Its slots are its own, apart from those
of classes and enums. -/
structure Inscribed (G : Groundwork) (v : VariableDecl) (c : Context) : Prop where
  nodup : ((layoutWith G v).map Prod.fst).Nodup
  typed : ∃ y, c.nodeType? v.id = some y
  signed : Signed (layoutWith G v) (TypeExpr.layers? true v.type) c
  slots : ∀ n ∈ TypeExpr.nodes? v.type, ∀ x, c.nodeType? n = some x →
    (G.size ≤ x ∧ x < c.types.size ∧ c.nodeType? v.id ≠ some x) ∨
      ∃ name, TypeSlot G.layout G.start name x

/-- No node of a variable declares a type. -/
lemma mem_layout_of_type
    (h : (d, Tag.type name) ∈ layoutWith G v) : (d, Tag.type name) ∈ G.layout := by
  rcases List.mem_append.mp h with h | h
  · exact h
  · rcases List.mem_cons.mp h with h | h
    · cases h
    · rcases htype : v.type with _ | type <;> rw [htype] at h
      · cases h
      · cases TypeExpr.isType_tags _ h

lemma typeSlot_of_layoutWith (hs : Footing G s)
    (h : TypeSlot (layoutWith G v) s.toContext name x) : TypeSlot G.layout G.start name x := by
  obtain ⟨d, hd, hx⟩ := h
  exact hs.typeSlot_iff.mp ⟨d, mem_layout_of_type hd, hx⟩

namespace Inscribed

variable {v : VariableDecl}

/-- Every node of the annotation has a slot. -/
lemma exists_slot (h : Inscribed G v c) (hn : n ∈ (Decl.var v).signature) :
    ∃ x, c.nodeType? n = some x := by
  rcases List.mem_cons.mp hn with rfl | hn
  · exact h.typed
  · rcases htype : v.type with _ | type
    · rw [htype] at hn
      cases hn
    · have hsigned := h.signed
      rw [htype] at hn hsigned
      have hn : n ∈ (type.layers true).map Prod.fst := by
        rw [TypeExpr.layers_fst]
        exact hn
      obtain ⟨p, hp, rfl⟩ := List.mem_map.mp hn
      obtain ⟨x, hx, -⟩ := hsigned p hp
      exact ⟨x, hx⟩

/-- The annotation keeps what it holds as long as its own slots do, and those of classes and
enums. -/
lemma kept (h : Inscribed G v s.toContext) (hs : Footing G s)
    (hn : ∀ n x, s.nodeType? n = some x → c.nodeType? n = some x)
    (hsize : s.types.size ≤ c.types.size)
    (htypes : ∀ name x, TypeSlot G.layout G.start name x →
      (s.types.get x).Stays (Unambiguous (layoutWith G v)) (c.types.get x))
    (hown : ∀ x, G.size ≤ x → x < s.types.size → s.nodeType? v.id ≠ some x →
      c.types.get x = s.types.get x)
    (hlow : ∀ x, x < G.size → s.types.get x = .void →
      (∀ n ∈ G.layout.map Prod.fst, s.nodeType? n ≠ some x) → c.types.get x = .void) :
    Inscribed G v c := by
  have hkeys : ∀ n ∈ (layoutWith G v).map Prod.fst, c.nodeType? n = s.nodeType? n := by
    intro n hn'
    obtain ⟨x, hx⟩ : ∃ x, s.nodeType? n = some x := by
      rw [List.map_append, List.mem_append, Decl.tags_fst] at hn'
      rcases hn' with hn' | hn'
      · obtain ⟨x, hx, -⟩ := G.typed n hn'
        exact ⟨x, (hs.nodes n hn').trans hx⟩
      · exact h.exists_slot hn'
    rw [hn n x hx, hx]
  have hself : ∀ n ∈ (Decl.var v).signature, c.nodeType? n = s.nodeType? n := by
    intro n hn'
    refine hkeys n ?_
    rw [List.map_append, List.mem_append, Decl.tags_fst]
    exact .inr hn'
  have hid := hself v.id List.mem_cons_self
  have hstays : ∀ n ∈ TypeExpr.nodes? v.type, ∀ x, s.nodeType? n = some x →
      (s.types.get x).Stays (Unambiguous (layoutWith G v)) (c.types.get x) := by
    intro n hn' x hx
    rcases h.slots n hn' x hx with ⟨hle, hlt, hne⟩ | ⟨name, htype⟩
    · exact .inl (hown x hle hlt hne)
    · exact htypes name x htype
  have hnodes : ∀ p ∈ TypeExpr.layers? true v.type, p.1 ∈ TypeExpr.nodes? v.type ∧
      p.2.sources = [] ∧ ∀ name, (p.1, Tag.type name) ∉ layoutWith G v := by
    intro p hp
    rcases htype : v.type with _ | type
    · rw [htype] at hp
      cases hp
    · rw [htype] at hp
      have hp' : p.1 ∈ type.nodes := by
        rw [← TypeExpr.layers_fst true]
        exact List.mem_map_of_mem hp
      refine ⟨hp', Layer.sources_of_isWritten (TypeExpr.isWritten_layers true p hp), ?_⟩
      refine not_type_of_tags h.nodup (TypeExpr.tags_fst _) (fun t ht => ?_) TypeExpr.isType_tags
        p.1 hp'
      refine List.mem_append_right _ (List.mem_cons_of_mem _ ?_)
      rw [htype]
      exact ht
  refine ⟨h.nodup, h.typed.imp fun y hy => hn _ y hy, h.signed.kept hn hkeys
    (fun name y hy => htypes name y (typeSlot_of_layoutWith hs hy)) (fun p hp => (hnodes p hp).2.2)
    (fun p hp m hm x hx => ?_) (fun p hp x r ps _ _ hresult => ?_), fun n hn' x hx => ?_⟩
  · rw [(hnodes p hp).2.1, List.mem_singleton] at hm
    subst hm
    exact hstays _ (hnodes p hp).1 x hx
  · obtain ⟨hvoid, hfree⟩ := hresult
    rcases Nat.lt_or_ge r G.size with hlt | hle
    · refine hlow r hlt hvoid fun n hn' => hfree n ?_
      rw [List.map_append]
      exact List.mem_append_left _ hn'
    · have hlt : r < s.types.size := by
        by_contra hge
        rw [TypeStore.get_eq_unknown _ (Nat.le_of_not_lt hge)] at hvoid
        cases hvoid
      refine (hown r hle hlt (hfree v.id ?_)).trans hvoid
      rw [List.map_append, List.mem_append, Decl.tags_fst]
      exact .inr List.mem_cons_self
  · rw [hself n (List.mem_cons_of_mem _ hn')] at hx
    rw [hid]
    exact (h.slots n hn' x hx).imp_left fun ⟨hle, hlt, hne⟩ => ⟨hle, hlt.trans_le hsize, hne⟩

lemma advances {ns : List NodeId} (h : Inscribed G v s.toContext) (hs : Footing G s) (hr : G.r)
    (ha : Advances G ns s s') : Inscribed G v s'.toContext := by
  refine h.kept hs ha.nodeType ha.size_le (fun name x hx => ?_)
    (fun x hle hlt _ => ha.old x hle hlt) fun x hlt hvoid hfree => ?_
  · rcases ha.low hr x (G.fixed_type hx).1 with hstays | ⟨w, -, -, -, ⟨_, _, _, htype⟩⟩
    · exact hstays.weaken fun hu _ _ _ hd hd' =>
        hu _ _ _ (List.mem_append_left _ hd) (List.mem_append_left _ hd')
    · exact absurd hx (htype name)
  · rcases ha.low hr x hlt with hstays | ⟨w, hw, -, -, ⟨n, hn, hnx, -⟩⟩
    · rw [hvoid] at hstays
      exact hstays.eq_of_plain rfl
    · have hkey := G.key hw hn
      exact absurd ((hs.nodes n hkey).trans hnx) (hfree n hkey)

/-- The slot of the variable itself is no part of its annotation. -/
lemma writes (h : Inscribed G v s.toContext) (hs : Footing G s) (hle : G.size ≤ y)
    (hy : s.nodeType? v.id = some y) (hw : Writes (· = y) s.toContext c) : Inscribed G v c := by
  have hlow : ∀ x, x < G.size → c.types.get x = s.types.get x := fun x hlt =>
    hw.get x (hlt.trans_le hle).ne
  refine h.kept hs (fun n x hx => (hw.nodeType? n).trans hx) hw.size.ge
    (fun name x hx => .inl (hlow x (G.fixed_type hx).1)) (fun x _ _ hne => hw.get x ?_)
    fun x hlt hvoid _ => (hlow x hlt).trans hvoid
  rintro rfl
  exact hne hy

end Inscribed

/-- An annotation is resolved into the slot of its variable. -/
lemma Prepares.resolveInto (h : Prepares v c y c') (htype : v.type = some type) :
    ∃ c1, c.slotOf v.id = (y, c1) ∧ Runs (TypeExpr.resolveInto .strict v.id type) c1 y c' := by
  obtain ⟨c1, hslot, ⟨hnone, -⟩ | ⟨type', declared, c2, htype', hresolve, rfl⟩⟩ := h
  · cases htype.symm.trans hnone
  · obtain rfl : type = type' := Option.some.inj (htype.symm.trans htype')
    have hg : Grows (fun _ => True) c1 c2 :=
      (TypeExpr.within_resolve _ _).of_runs hresolve
    refine ⟨c1, hslot, TypeExpr.runs_resolveInto.mpr ⟨declared, c2, c2, hresolve, ?_, rfl⟩⟩
    exact slotOf_of_some (hg.nodeType _ _ (nodeType?_of_slotOf hslot))

/-- The annotation of a local variable is resolved. -/
lemma inscribed_of_prepares (hs : Footing G s) (hr : G.r) (hnd : (Decl.var v).signature.Nodup)
    (hnone : ∀ n ∈ (Decl.var v).signature, s.nodeType? n = none)
    (h : Prepares v s.toContext y c) : Inscribed G v c := by
  have hL : ((layoutWith G v).map Prod.fst).Nodup := by
    rw [List.map_append, Decl.tags_fst]
    refine List.nodup_append'.mpr ⟨G.arranged.nodup, hnd, fun n hn hn' => ?_⟩
    obtain ⟨x, hx, -⟩ := G.typed n hn
    cases (hnone n hn').symm.trans ((hs.nodes n hn).trans hx)
  have htag : (v.id, Tag.variable) ∈ layoutWith G v := List.mem_append_right _ List.mem_cons_self
  have harranged : s.Arranged (layoutWith G v) :=
    (hs.arranged hr).append_untyped hL (by rwa [Decl.tags_fst])
  have hne : ∀ {c1 : Context}, s.slotOf v.id = (y, c1) → s.types.size ≤ y ∧ y < c1.types.size := by
    intro c1 hslot
    rw [slotOf_of_none (hnone _ List.mem_cons_self)] at hslot
    cases hslot
    exact ⟨le_rfl, by simp⟩
  rcases htype : v.type with _ | type
  · obtain ⟨c1, hslot, ⟨-, rfl⟩ | ⟨type, _, _, htype', -⟩⟩ := h
    · exact ⟨hL, ⟨y, nodeType?_of_slotOf hslot⟩, by simp [htype, TypeExpr.layers?, Signed],
        by simp [htype, TypeExpr.nodes?]⟩
    · cases htype.symm.trans htype'
  · obtain ⟨c1, hslot, hinto⟩ := Prepares.resolveInto h htype
    have hsignature : (Decl.var v).signature = v.id :: type.nodes := by
      rw [Decl.signature, htype]
      rfl
    rw [hsignature] at hnd hnone
    obtain ⟨hle, hlt⟩ := hne hslot
    have h1 : Touches (layoutWith G v) [v.id] s.toContext c1 :=
      harranged.touches_slotOf htag (.inl List.mem_cons_self) hslot
    have hnone1 : ∀ n ∈ type.nodes, c1.nodeType? n = none := by
      intro n hn
      rw [(Places.slotOf (hnone _ List.mem_cons_self) hslot).nodeType?, if_neg]
      · exact hnone n (List.mem_cons_of_mem _ hn)
      · rintro rfl
        exact (List.nodup_cons.mp hnd).1 hn
    have htags : ∀ p ∈ type.tags, p ∈ layoutWith G v := by
      intro p hp
      refine List.mem_append_right _ (List.mem_cons_of_mem _ ?_)
      rw [htype]
      exact hp
    obtain ⟨h2, hy, -, hsigned⟩ := TypeExpr.signed_resolveInto h1.arranged (.inr htag)
      htags hnd (.inr fun n hn _ => hnone1 n hn) hinto
    refine ⟨hL, ⟨y, hy⟩, ?_, fun n hn x hx => ?_⟩
    · rw [htype]
      exact hsigned rfl
    · rw [htype] at hn
      have hkey : n ∈ (layoutWith G v).map Prod.fst := by
        rw [List.map_append, List.mem_append, Decl.tags_fst, hsignature]
        exact .inr (List.mem_cons_of_mem _ hn)
      rcases (h2.fresh n x (hnone1 n hn) hx).2 with hge | ⟨name, d, hd, hdx⟩
      · refine .inl ⟨hs.le.trans (h1.size_le.trans hge), h2.arranged.lt n x hkey hx, ?_⟩
        rw [hy]
        rintro ⟨⟩
        exact absurd hlt (Nat.not_lt.mpr hge)
      · refine .inr ⟨name, d, mem_layout_of_type hd, ?_⟩
        obtain ⟨z, hz, -⟩ := G.typed d (mem_keys (mem_layout_of_type hd))
        have hz' := (hs.nodes d (mem_keys (mem_layout_of_type hd))).trans hz
        rw [hz, ← h1.nodeType d z hz', hdx]

/-! ### Variables that are resolved -/

/-- A variable that has got its slot, with its annotation in it. -/
structure Prepared (G : Groundwork) (v : VariableDecl) (s : Resolving) (y : Slot) (c : Context) :
    Prop where
  advances : Advances G (v.id :: TypeExpr.nodes? v.type) s ({ s with toContext := c }.done v)
  nodeType : c.nodeType? v.id = some y
  owns : Loose G s { s with toContext := c } y ∨
    v ∈ G.vars ∧ s.Waits v ∧ G.start.nodeType? v.id = some y
  untyped : ∀ n, n ∉ v.id :: TypeExpr.nodes? v.type → s.nodeType? n = none → c.nodeType? n = none
  inscribed : G.r → s.nodeType? v.id = none → Inscribed G v c

namespace Prepared

variable {v : VariableDecl} {e : Expr}

/-- The slot of a local variable is new. -/
lemma new (h : Prepared G v s y c) (hs : Footing G s) (hn : s.nodeType? v.id = none) :
    Loose G s { s with toContext := c } y := by
  refine h.owns.resolve_right ?_
  rintro ⟨hv, -, hstart⟩
  cases hn.symm.trans ((hs.nodes _ (G.key hv List.mem_cons_self)).trans hstart)

/-- The slot of the variable may be written once the variable counts as resolved. -/
lemma writable {ns : List NodeId} (h : Prepared G v s y c) (hs : Footing G s)
    (htype : v.type = none)
    (ha : Advances G ns ({ s with toContext := c }.done v) s1) :
    ∀ x, x = y → Writable G s s1 x := by
  rintro x rfl
  rcases h.owns with hloose | ⟨hv, hw, hstart⟩
  · have hloose : Loose G s ({ s with toContext := c }.done v) x := hloose
    exact .inl (hloose.after hs.le ha)
  · exact .inr ⟨v, hv, htype, hw, fun h => h.1 (ha.resolved _ List.mem_cons_self), hstart⟩

/-- The value is resolved while the variable is under way. -/
lemma ahead (h : Prepared G v s y c) (hnd : v.nodes.Nodup)
    (hfresh : Fresh G.vars (Expr.nodes? v.value) (s.done v)) (hvalue : v.value = some e) :
    G.frame.Ahead e.nodes ({ s with toContext := c }.begun v) := by
  rw [VariableDecl.nodes, ← List.cons_append, hvalue] at hnd
  rw [hvalue] at hfresh
  obtain ⟨-, hnd, hdisjoint⟩ := List.nodup_append'.mp hnd
  refine ⟨footing_begun h.advances.footing, hnd, fun n hn => ⟨?_, ?_⟩⟩
  · exact h.untyped n (fun hm => hdisjoint hm hn) (hfresh n hn).1
  · exact fun w hw hwaits => (hfresh n hn).2 w hw (waits_begun.mp hwaits)

end Prepared

/-- A variable of the plan has a slot already. -/
lemma prepared_planned (hs : Footing G s) (hnd : (Decl.var v).signature.Nodup) (hv : v ∈ G.vars)
    (hw : s.Waits v) (h : Prepares v s.toContext y c) : Prepared G v s y c := by
  obtain ⟨z, hz, hstart, -⟩ := hs.declared hv List.mem_cons_self
  have hnew : G.r → s.nodeType? v.id = none → Inscribed G v c := fun _ hn => by
    cases hn.symm.trans hz
  rcases htype : v.type with _ | type
  · obtain ⟨c1, hslot, ⟨-, rfl⟩ | ⟨type, _, _, htype', -⟩⟩ := h
    · rw [slotOf_of_some hz] at hslot
      cases hslot
      exact ⟨(Advances.done hs ⟨_, hz⟩).mono (by simp), hz, .inr ⟨hv, hw, hstart⟩,
        fun _ _ h => h, hnew⟩
    · cases htype.symm.trans htype'
  · obtain ⟨c1, hslot, hr⟩ := Prepares.resolveInto h htype
    rw [slotOf_of_some hz] at hslot
    cases hslot
    rw [Decl.signature, htype] at hnd
    obtain ⟨hadv, hnone⟩ := advances_annotation hs hv hw htype hnd hr
    exact ⟨hadv.mono (by simp), hadv.nodeType _ _ hz, .inr ⟨hv, hw, hstart⟩,
      fun n _ => hnone n, hnew⟩

/-- A local variable, which gets its slot now. -/
lemma prepared_local (hs : Footing G s) (hnd : (Decl.var v).signature.Nodup)
    (hv : Fresh G.vars (v.id :: TypeExpr.nodes? v.type) s) (h : Prepares v s.toContext y c) :
    Prepared G v s y c := by
  obtain ⟨hnone, hapart⟩ := hv v.id List.mem_cons_self
  have hprepares := h
  obtain ⟨c1, hslot, h⟩ := h
  have hp : Places v.id y s.toContext c1 := .slotOf hnone hslot
  have hext1 : Extends 0 [v.id] s.toContext c1 := hs.grounded.extends_place hp
  have h1 : Advances G [v.id] s { s with toContext := c1 } :=
    .of_extends hs hext1 (by simpa using hapart)
  have hloose : Loose G s { s with toContext := c1 } y := by
    rw [slotOf_of_none hnone] at hslot
    cases hslot
    exact hs.loose le_rfl hp.old le_rfl (by simp)
  have hdone : ∀ {ns : List NodeId} {c2 : Context}, Advances G ns s { s with toContext := c2 } →
      c2.nodeType? v.id = some y → Advances G ns s ({ s with toContext := c2 }.done v) := by
    intro ns c2 h hy
    simpa using h.trans (.done h.footing ⟨y, hy⟩)
  rcases h with ⟨htype, rfl⟩ | ⟨type, declared, c2, htype, hresolve, rfl⟩
  · refine ⟨?_, hp.node, .inl hloose, fun n hn hn' => ?_, fun hr _ => ?_⟩
    · rw [htype]
      exact hdone h1 hp.node
    · rw [hext1.nodeType?_eq fun hm => hn (List.mem_singleton.mp hm ▸ List.mem_cons_self)]
      exact hn'
    · exact inscribed_of_prepares hs hr hnd (fun n hn => (hv n hn).1) hprepares
  · have hnodes : TypeExpr.nodes? v.type = type.nodes := by rw [htype]; rfl
    have hinscribed : G.r → Inscribed G v (c2.assign y declared) := fun hr =>
      inscribed_of_prepares hs hr hnd (fun n hn => (hv n hn).1) hprepares
    rw [hnodes] at hv
    rw [Decl.signature, hnodes] at hnd
    obtain ⟨hnot, hnd⟩ := List.nodup_cons.mp hnd
    have hext2 : Extends 0 type.nodes c1 c2 := by
      refine (TypeExpr.annotates_resolve hnd hresolve).extends hext1.grounded fun n hn z hz => ?_
      rw [hext1.nodeType?_eq fun hm => hnot (List.mem_singleton.mp hm ▸ hn),
        (hv n (List.mem_cons_of_mem _ hn)).1] at hz
      cases hz
    have h2 : Advances G type.nodes { s with toContext := c1 } { s with toContext := c2 } :=
      .of_extends h1.footing hext2 fun n hn w hw hwaits =>
        (hv n (List.mem_cons_of_mem _ hn)).2 w hw (h1.waits hwaits)
    have hloose2 : Loose G s { s with toContext := c2 } y := hloose.after hs.le h2
    have h3 : Advances G (v.id :: type.nodes) s { s with toContext := c2.assign y declared } :=
      (h1.trans h2).writes (Writes.assign (P := (· = y)) rfl declared) (by
        rintro _ rfl
        exact .inl hloose2)
    have hy : c2.nodeType? v.id = some y := hext2.nodeType _ _ hp.node
    refine ⟨hnodes ▸ hdone h3 hy, hy, .inl ?_, fun n hn hn' => ?_, fun hr _ => hinscribed hr⟩
    · refine hloose2.writes (Writes.assign (P := (· = y)) rfl declared) ?_
      rintro _ rfl hfixed
      exact absurd (hs.le.trans hloose.1) (Nat.not_le.mpr hfixed.1)
    · rw [hnodes] at hn
      obtain ⟨hn1, hn2⟩ := not_or.mp (mt List.mem_cons.mpr hn)
      have hn3 : c2.nodeType? n = none := by
        rw [hext2.nodeType?_eq hn2, hext1.nodeType?_eq (by simpa using hn1)]
        exact hn'
      exact hn3

lemma prepared (hs : Footing G s) (hnd : v.nodes.Nodup) (hv : Due G v s)
    (h : Prepares v s.toContext y c) : Prepared G v s y c := by
  have hnd : (Decl.var v).signature.Nodup := by
    rw [VariableDecl.nodes, ← List.cons_append] at hnd
    exact (List.nodup_append'.mp hnd).1
  rcases hv with ⟨hv, hw⟩ | hv
  · exact prepared_planned hs hnd hv hw h
  · exact prepared_local hs hnd hv h

/-- What becomes of a state when a variable is resolved. If it is a local one, its slot is new and
its annotation holds what it says. -/
structure SettlesVariable (G : Groundwork) (v : VariableDecl) (s s' : Resolving) : Prop where
  advances : Advances G v.nodes s s'
  typed : ∃ y, s'.nodeType? v.id = some y
  slot : s.nodeType? v.id = none → ∀ y, s'.nodeType? v.id = some y → Loose G s s' y
  inscribed : G.r → s.nodeType? v.id = none → Inscribed G v s'.toContext

lemma settles_variableType (hd : DemandAdvances G demand) (hs : Footing G s) (hnd : v.nodes.Nodup)
    (hv : Due G v s) (hfresh : Fresh G.vars (Expr.nodes? v.value) (s.done v))
    (h : Runs (variableType plan demand v) (s.begun v) () s1) :
    SettlesVariable G v s (settle v.id s1) := by
  obtain ⟨y, c, hprepares, h⟩ := runs_variableType h
  have hp : Prepared G v s y c := prepared hs hnd hv hprepares
  have hnodes : v.nodes = (v.id :: TypeExpr.nodes? v.type) ++ Expr.nodes? v.value := rfl
  -- what is done for the value comes on top of what has been done for the annotation
  have hsettles : ∀ {ns : List NodeId} {s2 : Resolving}, (∀ n ∈ ns, n ∈ Expr.nodes? v.value) →
      Advances G ns ({ s with toContext := c }.begun v) s2 → SettlesVariable G v s
        (settle v.id s2) := by
    intro ns s2 hsub h2
    have hdone := advances_settle h2
    have hy : s2.nodeType? v.id = some y := h2.nodeType _ _ hp.nodeType
    refine ⟨(hp.advances.trans hdone).mono fun n hn => ?_, ⟨y, hy⟩, fun hn z hz => ?_,
      fun hr hn => ?_⟩
    · rw [hnodes]
      exact List.mem_append.mpr ((List.mem_append.mp hn).imp_right (hsub n))
    · obtain rfl : y = z := Option.some.inj (hy.symm.trans hz)
      have hloose : Loose G s ({ s with toContext := c }.done v) y := hp.new hs hn
      exact hloose.after hs.le hdone
    · exact Inscribed.advances (s := { s with toContext := c }.done v) (hp.inscribed hr hn)
        hp.advances.footing hr hdone
  rcases h with ⟨-, -, rfl⟩ | ⟨e, found, s2, hvalue, he, h⟩
  · exact hsettles (by simp) (.refl (footing_begun hp.advances.footing))
  · have hres := resolves_expr (F := G.frame) hd (hp.ahead hnd hfresh hvalue) he
    rcases h with ⟨-, c3, hcheck, rfl⟩ | ⟨htype, rfl⟩
    · have h3 : Advances G e.nodes ({ s with toContext := c }.begun v)
        { s2 with toContext := c3 } :=
        advances_checkAssignable hres hcheck
      exact hsettles (by rw [hvalue]; exact fun _ h => h) h3
    · have h2 : Advances G e.nodes ({ s with toContext := c }.begun v) s2 := hres.advances
      have hset := hsettles (by rw [hvalue]; exact fun _ h => h) h2
      have hy : s2.nodeType? v.id = some y := h2.nodeType _ _ hp.nodeType
      have hw := Writes.assign (P := (· = y)) (c := s2.toContext) rfl found
      refine ⟨hset.advances.writes hw (hp.writable hs htype (advances_settle h2)), ⟨y, hy⟩,
        fun hn z hz => ?_, fun hr hn => ?_⟩
      · refine (hset.slot hn z hz).writes hw ?_
        rintro _ rfl hfixed
        exact absurd (hs.le.trans (hset.slot hn _ hy).1) (Nat.not_le.mpr hfixed.1)
      · exact (hset.inscribed hr hn).writes hset.advances.footing
          (hs.le.trans (hset.slot hn y hy).1) hy hw

lemma settles_variableDecl (hd : DemandAdvances G demand) (hs : Footing G s) (hnd : v.nodes.Nodup)
    (hv : s.Waits v → Due G v s)
    (hfresh : s.Waits v → Fresh G.vars (Expr.nodes? v.value) (s.done v))
    (h : Runs (variableDecl plan demand v) s () s') : SettlesVariable G v s s' := by
  rcases runs_variableDecl h with ⟨htaken, rfl⟩ | ⟨hnew, hnew', s1, hrun, h⟩
  · obtain ⟨x, hx⟩ := hs.taken v.id htaken
    exact ⟨(Advances.refl hs).mono (by simp), ⟨x, hx⟩,
      fun hn => absurd (hn.symm.trans hx) (by simp),
      fun _ hn => absurd (hn.symm.trans hx) (by simp)⟩
  · have h1 := settles_variableType hd hs hnd (hv ⟨hnew, hnew'⟩) (hfresh ⟨hnew, hnew'⟩) hrun
    obtain ⟨y, hy⟩ := h1.typed
    have h2 : Advances G [] (settle v.id s1) s' := by
      rcases h with ⟨-, rfl⟩ | ⟨-, c, hdecl, rfl⟩
      · exact .refl h1.advances.footing
      · exact .of_extends h1.advances.footing
          (extends_declare h1.advances.footing.grounded hy hdecl) (by simp)
    refine ⟨by simpa using h1.advances.trans h2, ⟨y, h2.nodeType _ _ hy⟩, fun hn z hz => ?_,
      fun hr hn => (h1.inscribed hr hn).advances h1.advances.footing hr h2⟩
    obtain rfl : y = z := Option.some.inj ((h2.nodeType _ _ hy).symm.trans hz)
    exact (h1.slot hn y hy).after hs.le h2

/-- The value of a variable that waits belongs to no other variable. -/
lemma fresh_value (hp : plan.Covers G.vars) (hs : Footing G s) (hv : v ∈ G.vars) (hw : s.Waits v) :
    Fresh G.vars (Expr.nodes? v.value) (s.done v) := by
  intro n hn
  refine ⟨hs.waiting v hv hw n hn, fun w hw hw' hm => ?_⟩
  exact hp.apart v hv w hw (fun heq => hw'.1 (by rw [← heq]; exact List.mem_cons_self)) hn hm

/-- Of a variable of the plan only the nodes of its value are new. -/
lemma advances_planned (hp : plan.Covers G.vars) (hd : DemandAdvances G demand) (hs : Footing G s)
    (hv : v ∈ G.vars) (h : Runs (variableDecl plan demand v) s () s') : Advances G [] s s' := by
  have hadv := (settles_variableDecl hd hs (hp.nodup v hv) (fun hw => .inl ⟨hv, hw⟩)
    (fresh_value hp hs hv) h).advances
  refine { hadv with
    fresh := fun n hn x hx => ?_
    homes := fun n kind _ hn => hadv.homes n kind (hn v hv) hn }
  have htyped : n ∉ v.id :: TypeExpr.nodes? v.type := by
    intro hm
    obtain ⟨y, hy, -⟩ := hs.declared hv hm
    exact absurd (hn.symm.trans hy) (by simp)
  refine .inr ((hadv.fresh n hn x hx).elim (fun hm => ?_) id)
  rw [VariableDecl.nodes, ← List.cons_append] at hm
  have hm := (List.mem_append.mp hm).resolve_left htyped
  rcases runs_variableDecl h with ⟨-, rfl⟩ | ⟨hnew, hnew', s1, -, h⟩
  · exact absurd (hn.symm.trans hx) (by simp)
  · refine ⟨v, hv, ⟨hnew, hnew'⟩, fun hw => hw.1 ?_, hm⟩
    rcases h with ⟨-, rfl⟩ | ⟨-, c, -, rfl⟩ <;> exact List.mem_cons_self

/-- The stack of open scopes is not part of what is followed here. -/
lemma footing_of_stack (h : Footing G s) : Footing G { s with stack } :=
  ⟨⟨h.grounded.symbols, h.grounded.objects⟩, h.le, h.nodes, h.waiting, h.symbols, h.kept, h.taken,
    h.pinned⟩

lemma advances_of_stack {stack' : List ScopeId} (h : Advances G ns { s with stack } s1) :
    Advances G ns s { s1 with stack := stack' } :=
  ⟨h.le, footing_of_stack h.footing, h.size_le, h.nodeType, h.fresh, h.old, h.low, h.owned, h.homes,
    h.resolving, h.resolved, h.pinned, h.lettered⟩

lemma advances_demandWithin (hp : plan.Covers G.vars) :
    ∀ depth : Nat, DemandAdvances G (demandWithin plan depth) := by
  intro depth
  induction depth with
  | zero =>
    intro s s' n hs h
    simp only [demandWithin, runs_pure] at h
    rw [← h.2]
    exact .refl hs
  | succ depth ih =>
    intro s s' n hs h
    rcases runs_demandWithin h with ⟨rfl, -⟩ | ⟨q, scope, depth', s1, hdepth, hq, -, hv, rfl⟩
    · exact .refl hs
    · cases hdepth
      exact advances_of_stack
        (advances_planned hp ih (footing_of_stack hs) (hp.pending n q hq).1 hv)

lemma advances_demand (hp : plan.Covers G.vars) : DemandAdvances G (Resolve.demand plan) :=
  advances_demandWithin hp plan.size

/-! ### Scopes -/

/-- Entering a scope adds at most one without symbols. -/
lemma extends_enter (hc : c.Grounded) (hk : kind = .object → ∃ x, c.nodeType? n = some x)
    (h : Runs (mode.enter kind n l) c () c') : Extends N [n] c c' := by
  obtain ⟨htypes, hnodes, hscope⟩ := ScopeMode.runs_enter h
  obtain ⟨hscopes, hof, howned⟩ := ScopeMode.runs_enter_scopes h
  have hnode : ∀ m, c'.nodeType? m = c.nodeType? m := fun m => by
    rw [nodeType?, hnodes]
    rfl
  refine ⟨⟨?_, ?_⟩, by rw [htypes], fun m x hx => (hnode m).trans hx,
    fun m hm x hx => ?_, fun x _ _ => by rw [htypes], howned, ?_, ?_⟩
  · intro k sc hk symbol hs
    rw [hnode]
    rcases hscope k sc hk with h | ⟨hnil, -, -⟩
    · exact hc.symbols k sc h symbol hs
    · rw [hnil] at hs
      cases hs
  · intro k sc hk' hkind
    rw [hnode]
    rcases hscope k sc hk' with h | ⟨-, hkind', hnode'⟩
    · exact hc.objects k sc h hkind
    · rw [hnode']
      exact hk (hkind'.symm.trans hkind)
  · rw [hnode, hm] at hx
    cases hx
  · rintro m k hm ⟨id, sc, hid, hsc, hk, hn⟩
    exact ⟨id, sc, (hof m (by simpa using hm)).trans hid, hscopes id sc hsc, hk, hn⟩
  · rintro symbol - ⟨k, sc, hk, hs⟩
    rcases hscope k sc hk with h | ⟨hnil, -, -⟩
    · exact ⟨k, sc, h, hs⟩
    · rw [hnil] at hs
      cases hs

lemma extends_leave (mode : ScopeMode) (hc : c.Grounded) : Extends N [] c (mode.leave c) := by
  cases mode <;> exact ⟨⟨hc.symbols, hc.objects⟩, le_rfl, fun _ _ h => h,
    fun m hm x hx => absurd (hm.symm.trans hx) (by simp), fun _ _ _ => rfl, fun _ h => h,
    fun _ _ _ h => h, fun _ _ h => h⟩

lemma extends_markReturn (id : ScopeId) (hc : c.Grounded) : Extends N [] c (c.markReturn id) := by
  have hscope : ∀ k sc, (c.markReturn id).scope? k = some sc → ∃ sc0, c.scope? k = some sc0 ∧
      sc.symbols = sc0.symbols ∧ sc.kind = sc0.kind ∧ sc.node = sc0.node := by
    intro k sc h
    rw [markReturn, scope?_modifyScope] at h
    split at h
    · obtain ⟨sc0, h0, rfl⟩ := Option.map_eq_some_iff.mp h
      exact ⟨sc0, h0, rfl, rfl, rfl⟩
    · exact ⟨sc, h, rfl, rfl, rfl⟩
  refine ⟨⟨?_, ?_⟩, le_rfl, fun _ _ h => h,
    fun m hm x hx => absurd (hm.symm.trans hx) (by simp), fun _ _ _ => rfl, fun _ h => h, ?_, ?_⟩
  · intro k sc hk symbol hs
    obtain ⟨sc0, h0, hsym, -, -⟩ := hscope k sc hk
    exact hc.symbols k sc0 h0 symbol (hsym ▸ hs)
  · intro k sc hk hkind
    obtain ⟨sc0, h0, -, hkind0, hnode⟩ := hscope k sc hk
    rw [hnode]
    exact hc.objects k sc0 h0 (hkind0.symm.trans hkind)
  · rintro n k - ⟨i, sc, hi, hsc, hk, hn⟩
    refine homes_of_scope hi ?_
    rw [markReturn, scope?_modifyScope]
    split
    · exact ⟨{ sc with returns := true }, by rw [hsc]; rfl, hk, hn⟩
    · exact ⟨sc, hsc, hk, hn⟩
  · rintro symbol - ⟨k, sc, hk, hs⟩
    obtain ⟨sc0, h0, hsym, -, -⟩ := hscope k sc hk
    exact ⟨k, sc0, h0, hsym ▸ hs⟩

lemma advances_enter (hs : Footing G s) (hk : kind = .object → ∃ x, s.nodeType? n = some x)
    (hn : ∀ v ∈ G.vars, s.Waits v → n ∉ Expr.nodes? v.value)
    (h : Runs (mode.enter kind n l) s.toContext () c) :
    Advances G [n] s { s with toContext := c } :=
  .of_extends hs (extends_enter hs.grounded hk h) (by simpa using hn)

/-- What a step inside a scope does is what it does around it. Opening a scope gives no types. -/
lemma follows_inScope {α : Type} {node : Node} {x y : Resolve α} {Q : α → Resolving → Prop}
    (hs : Footing G s) (hk : kind = .object → ∃ x, s.nodeType? node.id = some x)
    (hnode : ∀ v ∈ G.vars, s.Waits v → node.id ∉ Expr.nodes? v.value)
    (h : ∀ s1, Advances G [node.id] s s1 → (∀ n, s1.nodeType? n = s.nodeType? n) →
      Follows x y s1 fun a s2 => Footing G s2 ∧ ∀ s', Advances G [] s2 s' → Q a s') :
    Follows (inScope mode kind node x) (inScope mode kind node y) s Q := by
  refine .bracket fun s1 h1 => ?_
  obtain ⟨c1, henter, rfl⟩ := runs_ofCheck.mp h1
  refine (h _ (advances_enter hs hk hnode henter) fun n => ?_).imp fun a s2 h2 => h2.2 _ ?_
  · rw [nodeType?, (ScopeMode.runs_enter henter).2.1]
    rfl
  · exact .of_extends h2.1 (extends_leave mode h2.1.grounded) (by simp)

end Resolve

end Sema
