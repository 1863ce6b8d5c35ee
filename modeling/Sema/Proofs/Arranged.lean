import Sema.Proofs.Layout

/-!
Which slots a step changes that resolves some nodes of signatures. The nodes of signatures share
slots only where a class or an enum is named, also later, when other nodes have types as well. A
step to some of them changes the slots that they have for themselves. The slot of a class or an
enum it changes only in so far as two of them have one name.
-/

namespace Sema

open Sema.Action

/-- Nothing has changed, or one class or enum was replaced by another of its name. -/
def Shape.Stays (q : Prop) (a b : Shape) : Prop :=
  b = a ∨ ¬ q ∧ ∃ name, a.nominalName? = some name ∧ b.nominalName? = some name

namespace Shape.Stays

variable {q : Prop} {a b c : Shape}

lemma refl (a : Shape) : Stays q a a := .inl rfl

lemma trans (h1 : Stays q a b) (h2 : Stays q b c) : Stays q a c := by
  rcases h1 with rfl | ⟨hq, name, ha, hb⟩
  · exact h2
  · rcases h2 with rfl | ⟨-, name', hb', hc⟩
    · exact .inr ⟨hq, name, ha, hb⟩
    · rw [hb] at hb'
      cases hb'
      exact .inr ⟨hq, name, ha, hc⟩

lemma symm (h : Stays q a b) : Stays q b a := by
  rcases h with rfl | ⟨hq, name, ha, hb⟩
  · exact .refl _
  · exact .inr ⟨hq, name, hb, ha⟩

lemma eq (h : Stays q a b) (hq : q) : b = a := by
  rcases h with h | ⟨hn, -⟩
  · exact h
  · exact absurd hq hn

lemma eq_of_plain (h : Stays q a b) (ha : a.nominalName? = none) : b = a := by
  rcases h with h | ⟨-, name, hname, -⟩
  · exact h
  · rw [ha] at hname
    cases hname

lemma nominalName? (h : Stays q a b) : b.nominalName? = a.nominalName? := by
  rcases h with rfl | ⟨-, name, ha, hb⟩
  · rfl
  · rw [ha, hb]

lemma weaken {q' : Prop} (h : Stays q a b) (hq : q' → q) : Stays q' a b :=
  h.imp_right fun ⟨hn, h⟩ => ⟨fun h' => hn (hq h'), h⟩

/-- Shapes of one name. -/
lemma of_names {name : String} (hq : ¬ q) (ha : a.nominalName? = some name)
    (hb : b.nominalName? = some name) : Stays q a b :=
  .inr ⟨hq, name, ha, hb⟩

end Shape.Stays

/-- No two classes or enums have one name. -/
def Unambiguous (L : List (NodeId × Tag)) : Prop :=
  ∀ name d d', (d, Tag.type name) ∈ L → (d', Tag.type name) ∈ L → d = d'

namespace Context

variable {L : List (NodeId × Tag)} {c c1 c2 c' : Context} {n m d : NodeId} {t : Tag}
  {x y : Slot} {shape : Shape} {name : String} {ms ns : List NodeId}

/-- Every class and every enum has been collected, and has its name. -/
def Named (L : List (NodeId × Tag)) (c : Context) : Prop :=
  ∀ d name, (d, Tag.type name) ∈ L →
    ∃ x, c.nodeType? d = some x ∧ (c.types.get x).nominalName? = some name

lemma Named.typeSlot (h : c.Named L) (hx : TypeSlot L c name x) :
    (c.types.get x).nominalName? = some name := by
  obtain ⟨d, hd, hdx⟩ := hx
  obtain ⟨y, hy, hname⟩ := h d name hd
  obtain rfl : y = x := Option.some.inj (hy.symm.trans hdx)
  exact hname

/-! ### What a step does that comes to the nodes in `ns` -/

/-- `c'` is what became of `c` when the nodes of signatures in `ns` were given types. A slot changes
only if one of them holds it; that of a class or an enum only if that itself is among them, and
other than by getting its first type it keeps its name. -/
structure Touches (L : List (NodeId × Tag)) (ns : List NodeId) (c c' : Context) :
    Prop where
  arranged : c'.Arranged L
  size_le : c.types.size ≤ c'.types.size
  nodeType : ∀ n x, c.nodeType? n = some x → c'.nodeType? n = some x
  fresh : ∀ n x, c.nodeType? n = none → c'.nodeType? n = some x →
    (n ∈ ns ∨ ∃ name, (n, Tag.type name) ∈ L) ∧
      (c.types.size ≤ x ∨ ∃ name, TypeSlot L c name x)
  get : ∀ x, x < c.types.size → (c.types.get x).Stays (Unambiguous L) (c'.types.get x) ∨
    (∃ n ∈ ns, n ∈ L.map Prod.fst ∧ c.nodeType? n = some x ∧ ∀ name, ¬ TypeSlot L c name x) ∨
    ∃ n ∈ ns, ∃ name, (n, Tag.type name) ∈ L ∧ c.nodeType? n = some x ∧
      (c.types.get x = .unknown ∨ (c.types.get x).Stays False (c'.types.get x))
  scopeOf : ∀ n ∈ L.map Prod.fst, n ∉ ns → c'.scopeOf? n = c.scopeOf? n

lemma TypeSlot.touches (h : TypeSlot L c name x) (ht : Touches L ns c c') :
    TypeSlot L c' name x := by
  obtain ⟨d, hd, hdx⟩ := h
  exact ⟨d, hd, ht.nodeType d x hdx⟩

namespace Touches

lemma refl (h : c.Arranged L) : Touches L ns c c :=
  ⟨h, le_rfl, fun _ _ h => h, fun _ _ hn hx => absurd (hn.symm.trans hx) (by simp),
    fun _ _ => .inl (.refl _), fun _ _ _ => rfl⟩

lemma mono (h : Touches L ms c c') (hsub : ∀ n ∈ ms, n ∈ ns) : Touches L ns c c' := by
  refine { h with
    fresh := fun n x hn hx => ?_, get := fun x hx => ?_, scopeOf := fun n hk hn => ?_ }
  · exact (h.fresh n x hn hx).imp_left (Or.imp_left (hsub n))
  · rcases h.get x hx with hs | ⟨n, hn, hs⟩ | ⟨n, hn, hs⟩
    · exact .inl hs
    · exact .inr (.inl ⟨n, hsub n hn, hs⟩)
    · exact .inr (.inr ⟨n, hsub n hn, hs⟩)
  · exact h.scopeOf n hk fun hm => hn (hsub n hm)

/-- A node that holds an old slot after the step held it before, or names a class or an enum. -/
lemma nodeType_back (h : Touches L ns c c') (hx : x < c.types.size)
    (hn : c'.nodeType? n = some x) (htype : ∀ name, ¬ TypeSlot L c name x) :
    c.nodeType? n = some x := by
  rcases hc : c.nodeType? n with _ | y
  · rcases (h.fresh n x hc hn).2 with hle | ⟨name, ht⟩
    · exact absurd hx (Nat.not_lt.mpr hle)
    · exact absurd ht (htype name)
  · rw [← hn]
    exact (h.nodeType n y hc).symm

/-- The slot of a class or an enum that was there before belonged to it before. -/
lemma typeSlot_back (h : Touches L ns c c') (hx : x < c.types.size)
    (hd : (d, Tag.type name) ∈ L) (hdx : c'.nodeType? d = some x) : c.nodeType? d = some x := by
  rcases hc : c.nodeType? d with _ | y
  · rcases (h.fresh d x hc hdx).2 with hle | ⟨name', d', hd', hdx'⟩
    · exact absurd hx (Nat.not_lt.mpr hle)
    · have := h.arranged.type_inj hd hd' hdx (h.nodeType d' x hdx')
      subst this
      rw [hc] at hdx'
      cases hdx'
  · rw [← hdx]
    exact (h.nodeType d y hc).symm

lemma trans (h1 : Touches L ms c c1)
    (h2 : Touches L ns c1 c2) : Touches L (ms ++ ns) c c2 := by
  refine ⟨h2.arranged, h1.size_le.trans h2.size_le,
    fun n x hx => h2.nodeType n x (h1.nodeType n x hx), ?_, ?_, ?_⟩
  · intro n x hn hx
    rcases hn1 : c1.nodeType? n with _ | y
    · obtain ⟨hns, hslot⟩ := h2.fresh n x hn1 hx
      refine ⟨hns.imp_left (List.mem_append_right _), ?_⟩
      rcases hslot with hle | ⟨name, d, hd, hdx⟩
      · exact .inl (h1.size_le.trans hle)
      · by_cases hlt : x < c.types.size
        · exact .inr ⟨name, d, hd, h1.typeSlot_back hlt hd hdx⟩
        · exact .inl (Nat.le_of_not_lt hlt)
    · obtain rfl : y = x := Option.some.inj ((h2.nodeType n y hn1).symm.trans hx)
      obtain ⟨hns, hslot⟩ := h1.fresh n y hn hn1
      exact ⟨hns.imp_left (List.mem_append_left _), hslot⟩
  · intro x hx
    have hx1 := hx.trans_le h1.size_le
    rcases h1.get x hx with hs1 | ⟨n, hn, hs⟩ | ⟨n, hn, name, hname, hnx, hs⟩
    · rcases h2.get x hx1 with hs2 | ⟨n, hn, hk, hnx, hs⟩ | ⟨n, hn, name, hname, hnx, hs⟩
      · exact .inl (hs1.trans hs2)
      · have htype : ∀ name, ¬ TypeSlot L c name x := fun name ht => hs name (ht.touches h1)
        exact .inr (.inl ⟨n, List.mem_append_right _ hn, hk, h1.nodeType_back hx hnx htype, htype⟩)
      · refine .inr (.inr ⟨n, List.mem_append_right _ hn, name, hname,
          h1.typeSlot_back hx hname hnx, ?_⟩)
        rcases hs with hs | hs
        · left
          rw [hs] at hs1
          exact (hs1.symm.eq_of_plain rfl)
        · exact .inr ((hs1.weaken (fun h => h.elim)).trans hs)
    · exact .inr (.inl ⟨n, List.mem_append_left _ hn, hs⟩)
    · refine .inr (.inr ⟨n, List.mem_append_left _ hn, name, hname, hnx, ?_⟩)
      rcases hs with hs | hs
      · exact .inl hs
      · have htype : TypeSlot L c1 name x := ⟨n, hname, h1.nodeType n x hnx⟩
        rcases h2.get x hx1 with hs2 | ⟨-, -, -, -, hs2⟩ | ⟨-, -, -, -, -, hs2 | hs2⟩
        · exact .inr (hs.trans (hs2.weaken fun h => h.elim))
        · exact absurd htype (hs2 name)
        · left
          rw [hs2] at hs
          exact (hs.symm.eq_of_plain rfl)
        · exact .inr (hs.trans hs2)
  · intro n hk hn
    obtain ⟨hm, hn⟩ := not_or.mp (mt List.mem_append.mpr hn)
    rw [h2.scopeOf n hk hn, h1.scopeOf n hk hm]

/-- The slot of a class or an enum that is not among the nodes. -/
lemma type_stays (h : Touches L ns c c') (ha : c.Arranged L)
    (hd : (d, Tag.type name) ∈ L) (hdx : c.nodeType? d = some x) (hns : d ∉ ns) :
    (c.types.get x).Stays (Unambiguous L) (c'.types.get x) := by
  rcases h.get x (ha.lt d x (mem_keys hd) hdx) with hs | ⟨-, -, -, -, hs⟩ |
    ⟨n, hn, name', hname', hnx, -⟩
  · exact hs
  · exact absurd ⟨d, hd, hdx⟩ (hs name)
  · obtain rfl := ha.type_inj hd hname' hdx hnx
    exact absurd hn hns

/-- The slot that a node has for itself, if the node is not among those that are given types. -/
lemma private_stays (h : Touches L ns c c') (ha : c.Arranged L)
    (hn : Private L n) (hx : c.nodeType? n = some x) (hns : n ∉ ns) :
    (c.types.get x).Stays (Unambiguous L) (c'.types.get x) := by
  rcases h.get x (ha.lt n x hn.mem_keys hx) with hs | ⟨m, hm, hk, hmx, -⟩ | ⟨m, hm, _, hk, hmx, -⟩
  · exact hs
  · obtain rfl := ha.private_own hn hx hk hmx
    exact absurd hm hns
  · obtain rfl := ha.private_own hn hx (mem_keys hk) hmx
    exact absurd hm hns

end Touches

/-! ### Primitive steps -/

namespace Arranged

/-- Only contents change, in slots that some of the nodes have for themselves. -/
lemma touches_types (h : c.Arranged L) {ts : TypeStore}
    (hsize : c.types.size ≤ ts.size)
    (hget : ∀ x, x < c.types.size → ts.get x = c.types.get x ∨
      ∃ n ∈ ns, Private L n ∧ c.nodeType? n = some x) :
    Touches L ns c { c with types := ts } := by
  refine ⟨h.of_types rfl rfl hsize ?_, hsize, fun _ _ h => h,
    fun _ _ hn hx => absurd (hn.symm.trans hx) (by simp), fun x hx => ?_, fun _ _ _ => rfl⟩
  · rintro name x ⟨d, hd, hdx⟩
    change ts.get x = _ ∨ (ts.get x).nominalName? = _
    rcases hget x (h.lt d x (mem_keys hd) hdx) with heq | ⟨n, -, hn, hnx⟩
    · rw [heq]
      exact h.nominal name x ⟨d, hd, hdx⟩
    · exact absurd ⟨d, hd, hdx⟩ (h.private_not_type hn hnx name)
  · rcases hget x hx with heq | ⟨n, hn, hp, hnx⟩
    · exact .inl (.inl heq)
    · exact .inr (.inl ⟨n, hn, hp.mem_keys, hnx, h.private_not_type hp hnx⟩)

lemma touches_alloc (h : c.Arranged L) (shape : Shape) :
    Touches L ns c (c.alloc shape).2 :=
  h.touches_types (by simp) fun _ hx => .inl (c.types.get_alloc_of_lt shape hx)

lemma touches_assign (h : c.Arranged L) (hn : Private L n)
    (hns : n ∈ ns) (hx : c.nodeType? n = some x) (y : Slot) :
    Touches L ns c (c.assign x y) := by
  refine h.touches_types (by simp) fun z _ => ?_
  by_cases hz : z = x
  · subst hz
    exact .inr ⟨n, hns, hn, hx⟩
  · exact .inl (c.types.get_assign_of_ne hz)

/-- A node gets a slot; contents do not change. -/
lemma touches_insert (hn : c.nodeType? n = none)
    (hns : n ∈ ns ∨ ∃ name, (n, Tag.type name) ∈ L) {ts : TypeStore}
    (hsize : c.types.size ≤ ts.size) (hget : ∀ z, z < c.types.size → ts.get z = c.types.get z)
    (hx : c.types.size ≤ x ∨ ∃ name, TypeSlot L c name x)
    (harranged :
      ({ c with types := ts, nodeTypes := c.nodeTypes.insert n x } : Context).Arranged L) :
    Touches L ns c { c with types := ts, nodeTypes := c.nodeTypes.insert n x } := by
  have hnode : ∀ m, nodeType? { c with types := ts, nodeTypes := c.nodeTypes.insert n x } m =
      if m = n then some x else c.nodeType? m := fun m => Table.get?_insert _ _ _ _
  refine ⟨harranged, hsize, fun m z hm => ?_, fun m z hm hz => ?_,
    fun z hz => .inl (.inl (hget z hz)), fun _ _ _ => rfl⟩
  · rw [hnode, if_neg]
    · exact hm
    · rintro rfl
      rw [hn] at hm
      cases hm
  · rw [hnode] at hz
    split at hz
    · next heq =>
      cases hz
      rw [heq]
      exact ⟨hns, hx⟩
    · rw [hm] at hz
      cases hz

/-- A node without a slot gets a new one. -/
lemma touches_allocFor (h : c.Arranged L) (ht : (n, t) ∈ L)
    (hn : c.nodeType? n = none) (hns : n ∈ ns ∨ ∃ name, (n, Tag.type name) ∈ L)
    (hshape : ∀ name, t = .type name → shape = .unknown ∨ shape.nominalName? = some name) :
    Touches L ns c (c.allocFor n shape).2 := by
  have hfree : ∀ m ∈ L.map Prod.fst, (c.alloc shape).2.nodeType? m ≠ some c.types.size := by
    intro m hm hmx
    exact absurd (h.lt m _ hm hmx) (Nat.lt_irrefl _)
  have hnew : (c.alloc shape).2.types.get c.types.size = shape :=
    (TypeStore.get_alloc _ _ _).trans (if_pos rfl)
  have htouch : Touches L ns c (c.alloc shape).2 := h.touches_alloc shape
  refine touches_insert hn hns (by simp) (fun z hz => c.types.get_alloc_of_lt shape hz)
    (.inl le_rfl) (htouch.arranged.insert hn ht (by simp [Context.alloc]) (.inl ⟨hfree, ?_⟩))
  rwa [hnew]

lemma touches_slotOf (h : c.Arranged L) (ht : (n, t) ∈ L)
    (hns : n ∈ ns ∨ ∃ name, (n, Tag.type name) ∈ L) (hs : c.slotOf n = (x, c')) :
    Touches L ns c c' := by
  rcases hn : c.nodeType? n with _ | y
  · rw [slotOf_of_none hn] at hs
    have := h.touches_allocFor ht hn hns fun _ _ => .inl rfl
    rwa [hs] at this
  · rw [slotOf_of_some hn] at hs
    cases hs
    exact .refl h

lemma touches_setShape (h : c.Arranged L) (ht : (n, Tag.plain) ∈ L)
    (hns : n ∈ ns) (hs : c.setShape n shape = (x, c')) : Touches L ns c c' := by
  rcases hn : c.nodeType? n with _ | y
  · rw [setShape_of_none hn] at hs
    have htouch : Touches L ns c (c.allocFor n shape).2 :=
      h.touches_allocFor ht hn (.inl hns) (by simp)
    rwa [hs] at htouch
  · rw [setShape_of_some hn] at hs
    cases hs
    refine h.touches_types (by simp) fun z _ => ?_
    by_cases hz : z = x
    · subst hz
      exact .inr ⟨n, hns, .inl ht, hn⟩
    · exact .inl (c.types.get_set_of_ne shape hz)

/-- A class or an enum gets its type, or a field more. -/
lemma touches_setType (h : c.Arranged L)
    (ht : (n, Tag.type name) ∈ L) (hns : n ∈ ns) (hx : c.nodeType? n = some x)
    (hshape : shape.nominalName? = some name) :
    Touches L ns c { c with types := c.types.set x shape } := by
  have hget := fun k => c.types.get_set x k shape (h.lt n x (mem_keys ht) hx)
  refine ⟨h.of_types rfl rfl (by simp) ?_, by simp, fun _ _ h => h,
    fun _ _ hn hx => absurd (hn.symm.trans hx) (by simp), fun z hz => ?_, fun _ _ _ => rfl⟩
  · rintro name' z ⟨d, hd, hdz⟩
    simp only [hget]
    split
    · next heq =>
      subst heq
      obtain rfl := h.type_inj ht hd hx hdz
      cases h.tag_unique ht hd
      exact .inr hshape
    · exact h.nominal name' z ⟨d, hd, hdz⟩
  · simp only [hget]
    split
    · next heq =>
      subst heq
      refine .inr (.inr ⟨n, hns, name, ht, hx, ?_⟩)
      rcases h.nominal name z ⟨n, ht, hx⟩ with hu | hname
      · exact .inl hu
      · exact .inr (.of_names (by simp) hname hshape)
    · exact .inl (.refl _)

lemma touches_setNominal (h : c.Arranged L)
    (ht : (n, Tag.type name) ∈ L) (hns : n ∈ ns) (hshape : shape.nominalName? = some name)
    (hs : c.setShape n shape = (x, c')) : Touches L ns c c' := by
  rcases hn : c.nodeType? n with _ | y
  · rw [setShape_of_none hn] at hs
    have htouch : Touches L ns c (c.allocFor n shape).2 := by
      refine h.touches_allocFor ht hn (.inl hns) fun name' hname' => ?_
      cases hname'
      exact .inr hshape
    rwa [hs] at htouch
  · rw [setShape_of_some hn] at hs
    cases hs
    exact h.touches_setType ht hns hn hshape

/-- Scopes are opened, closed and filled; types stay as they are. -/
lemma touches_scopes (h : c.Arranged L) (htypes : c'.types = c.types)
    (hnodes : c'.nodeTypes = c.nodeTypes)
    (hsymbols : ∀ id sc, c'.scope? id = some sc → ∀ s ∈ sc.symbols, s.kind = .type →
      (s.declaration, Tag.type s.name) ∈ L)
    (hscope : ∀ n ∈ L.map Prod.fst, n ∉ ns → c'.scopeOf? n = c.scopeOf? n) :
    Touches L ns c c' := by
  have hnode : ∀ n, c'.nodeType? n = c.nodeType? n := fun n => by rw [nodeType?, hnodes]; rfl
  refine ⟨⟨h.nodup, ?_, hsymbols, ?_, ?_, ?_⟩, ?_, ?_, ?_, ?_, hscope⟩
  · simpa only [hnode, htypes] using h.lt
  · simpa only [TypeSlot, hnode] using h.shared
  · simpa only [hnode] using h.own
  · simpa only [TypeSlot, hnode, htypes] using h.nominal
  · rw [htypes]
  · intro n x hx
    rw [hnode]
    exact hx
  · intro n x hn hx
    rw [hnode, hn] at hx
    cases hx
  · intro x _
    rw [htypes]
    exact .inl (.refl _)

lemma touches_declare (h : c.Arranged L) {kind : SymbolKind} {l : Location}
    (hd : kind = .type → (d, Tag.type name) ∈ L) (hr : Runs (Check.declare name kind d l) c () c') :
    Touches L ns c c' := by
  obtain ⟨id, sc, sc', unique, -, hsc, hinsert, rfl⟩ := Check.runs_declare hr
  refine h.touches_scopes rfl rfl (fun k sck hk s hs hkind => ?_) fun _ _ _ => rfl
  rw [Context.scope?_modifyScope] at hk
  split at hk
  · next heq =>
    subst heq
    rw [hsc] at hk
    cases hk
    rcases (Scope.insert?_cases hinsert).2.2 s hs with hs | rfl
    · exact h.symbols id sc hsc s hs hkind
    · exact hd hkind
  · exact h.symbols k sck hk s hs hkind

lemma touches_enter (h : c.Arranged L) {mode : ScopeMode} {kind : ScopeKind} {l : Location}
    (hns : n ∈ ns) (hr : Runs (mode.enter kind n l) c () c') : Touches L ns c c' := by
  obtain ⟨htypes, hnodes, hscopes⟩ := ScopeMode.runs_enter hr
  refine h.touches_scopes htypes hnodes (fun id sc hsc s hs => ?_) fun m _ hm => ?_
  · rcases hscopes id sc hsc with hsc | ⟨hnil, -⟩
    · exact h.symbols id sc hsc s hs
    · rw [hnil] at hs
      cases hs
  · refine (ScopeMode.runs_enter_scopes hr).2.1 m ?_
    rintro rfl
    exact hm hns

lemma touches_leave (h : c.Arranged L) (mode : ScopeMode) : Touches L ns c (mode.leave c) := by
  obtain ⟨htypes, hnodes, hscopes⟩ := mode.leave_frame c
  refine h.touches_scopes htypes hnodes (fun id sc hsc => ?_) fun m _ _ => ?_
  · rw [scope?, hscopes] at hsc
    exact h.symbols id sc hsc
  · cases mode <;> rfl

/-- The name of a class or an enum. Where the node has a slot already, all of them must have been
collected. -/
lemma touches_bind (h : c.Arranged L) (ht : (n, Tag.name name) ∈ L) (hns : n ∈ ns)
    (hd : (d, Tag.type name) ∈ L) (hdy : c.nodeType? d = some y)
    (hnamed : c.Named L ∨ c.nodeType? n = none)
    (hb : c.bind n y = (x, c')) : Touches L ns c c' := by
  rcases hn : c.nodeType? n with _ | z
  · rw [bind_of_none hn] at hb
    cases hb
    have htype : TypeSlot L c name x := ⟨d, hd, hdy⟩
    exact touches_insert hn (.inl hns) le_rfl (fun _ _ => rfl) (.inr ⟨name, htype⟩)
      (h.insert hn ht (h.lt d x (mem_keys hd) hdy) (.inr ⟨name, rfl, htype⟩))
  · have hnamed : c.Named L := hnamed.resolve_right (by simp [hn])
    rw [bind_of_some hn] at hb
    cases hb
    have hy : (c.types.get y).nominalName? = some name := hnamed.typeSlot ⟨d, hd, hdy⟩
    have hx : x < c.types.size := h.lt n x (mem_keys ht) hn
    -- a slot that the node shares is that of a class or an enum of the same name
    have hstays : ∀ name', TypeSlot L c name' x →
        (c.types.get x).Stays (Unambiguous L) (c.types.get y) := by
      intro name' htype
      obtain rfl := h.name_eq ht hn htype
      by_cases hu : Unambiguous L
      · obtain ⟨d', hd', hdx'⟩ := htype
        obtain rfl := hu _ _ _ hd hd'
        rw [hdx'] at hdy
        cases hdy
        exact .refl _
      · exact .of_names hu (hnamed.typeSlot htype) hy
    have hget : ∀ z, (c.assign x y).types.get z = if z = x then c.types.get y else c.types.get z :=
      fun z => TypeStore.get_assign _ _ _ _ hx
    refine ⟨h.of_types rfl rfl (by simp [Context.assign]) ?_, by simp [Context.assign],
      fun _ _ h => h, fun _ _ hn hx => absurd (hn.symm.trans hx) (by simp), fun z hz => ?_,
      fun _ _ _ => rfl⟩
    · intro name' z htype
      rw [hget]
      split
      · next heq =>
        subst heq
        obtain rfl := h.name_eq ht hn htype
        exact .inr hy
      · exact h.nominal name' z htype
    · rw [hget]
      split
      · next heq =>
        subst heq
        by_cases htype : ∃ name', TypeSlot L c name' z
        · obtain ⟨name', htype⟩ := htype
          exact .inl (hstays name' htype)
        · exact .inr (.inl ⟨n, hns, mem_keys ht, hn, fun name' h => htype ⟨name', h⟩⟩)
      · exact .inl (.refl _)

end Arranged

lemma Named.touches (h : c.Named L) (ha : c.Arranged L)
    (ht : Touches L ns c c') (hns : ∀ n ∈ ns, ∀ name, (n, Tag.type name) ∉ L) : c'.Named L := by
  intro d name hd
  obtain ⟨x, hx, hname⟩ := h d name hd
  refine ⟨x, ht.nodeType d x hx, ?_⟩
  rw [(ht.type_stays ha hd hx fun hm => hns d hm name hd).nominalName?]
  exact hname

/-- The nodes can be resolved: every class and enum has been collected, or the nodes have no slots
yet. The latter they have to be where they are resolved early. -/
def Nameable (L : List (NodeId × Tag)) (early : Bool) (ns : List NodeId) (c : Context) : Prop :=
  c.Named L ∧ early = false ∨ ∀ n ∈ ns, n ∈ L.map Prod.fst → c.nodeType? n = none

variable {early : Bool}

/-- Resolving some nodes leaves the others as they are. -/
lemma Nameable.touches (h : Nameable L early ns c) (ha : c.Arranged L)
    (ht : Touches L ms c c')
    (hms : ∀ n ∈ ms, ∀ name, (n, Tag.type name) ∉ L)
    (hns : ∀ n ∈ ns, ∀ name, (n, Tag.type name) ∉ L) (hdisjoint : List.Disjoint ms ns) :
    Nameable L early ns c' := by
  rcases h with ⟨h, hearly⟩ | h
  · exact .inl ⟨h.touches ha ht hms, hearly⟩
  · refine .inr fun n hn hk => ?_
    rcases hx : c'.nodeType? n with _ | x
    · rfl
    · rcases (ht.fresh n x (h n hn hk) hx).1 with hm | ⟨name, hname⟩
      · exact absurd hn (hdisjoint hm)
      · exact absurd hname (hns n hn name)

lemma Nameable.mono (h : Nameable L early ns c) (hsub : ∀ n ∈ ms, n ∈ ns) :
    Nameable L early ms c :=
  h.imp_right fun h n hn => h n (hsub n hn)

lemma Nameable.tail (h : Nameable L early (n :: ns) c) : Nameable L early ns c :=
  h.mono fun _ => List.mem_cons_of_mem _

lemma Nameable.left (h : Nameable L early (ms ++ ns) c) : Nameable L early ms c :=
  h.mono fun _ => List.mem_append_left _

lemma Nameable.right (h : Nameable L early (ms ++ ns) c) : Nameable L early ns c :=
  h.mono fun _ => List.mem_append_right _

end Context

end Sema
