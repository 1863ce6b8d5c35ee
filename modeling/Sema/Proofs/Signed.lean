import Sema.Proofs.Arranged

/-!
What the nodes of a signature hold. Resolving an annotation stores one layer of the type at each of
its nodes, and the layer is said here with nodes in place of slots: which nodes stand for the
components, which name stands for a class or an enum. A step that comes to other nodes leaves the
layer as it is. What depends on classes and enums having different names is said under
`Unambiguous`.
-/

namespace Sema

open Sema.Action

variable {L T : List (NodeId × Tag)} {ns : List NodeId}

/-! ### Layers -/

/-- One layer of a type as it is written, with nodes in place of slots. An annotation is resolved
early if that happens while declarations are still being collected. -/
inductive Layer where
  | leaf (shape : Shape)
  | name (early : Bool) (name : String)
  | generic (name : String) (argument : NodeId)
  | function (result : Option NodeId) (parameters : List (String × NodeId))
  | record (fields : List (String × NodeId))
  | enumItem (name : String) (payload : List NodeId)
  | inlineEnum (items : List NodeId)
  /-- A declaration has a copy of what its annotation holds. -/
  | copy (early : Bool) (source : NodeId)
  | object (base : Option NodeId) (name : String) (fields : List (String × NodeId))
  | enum (name : String) (items : List NodeId)

namespace Layer

open Context

variable {L : List (NodeId × Tag)} {c c' : Context} {n m : NodeId} {x y : Slot}
  {ns : List NodeId} {layer : Layer}

/-- Each node holds the slot in its place. -/
def Holders (c : Context) : List NodeId → List Slot → Prop :=
  List.Forall₂ fun n x => c.nodeType? n = some x

/-- Each node holds the slot of its name. -/
def Fields (c : Context) : List (String × NodeId) → List (String × Slot) → Prop :=
  List.Forall₂ fun p f => p.1 = f.1 ∧ c.nodeType? p.2 = some f.2

/-- The result of a function that is written without one is void, in a slot of its own. -/
def Result (L : List (NodeId × Tag)) (c : Context) (r : Slot) : Option NodeId → Prop
  | some m => c.nodeType? m = some r
  | none => c.types.get r = .void ∧ ∀ n ∈ L.map Prod.fst, c.nodeType? n ≠ some r

def Base (c : Context) : Option NodeId → Option Slot → Prop
  | some m, some y => c.nodeType? m = some y
  | none, none => True
  | _, _ => False

/-- The layer is one that a node of its kind may have. -/
def Suits (L : List (NodeId × Tag)) (n : NodeId) : Layer → Prop
  | name _ s => (n, Tag.name s) ∈ L
  | copy .. => Private L n
  | object _ s _ | enum s _ => (n, Tag.type s) ∈ L
  | _ => (n, Tag.plain) ∈ L

/-- The slot `x` of the node `n` holds what the layer says. -/
def Holds (L : List (NodeId × Tag)) (c : Context) (n : NodeId) (x : Slot) :
    Layer → Prop
  | leaf shape => c.types.get x = shape ∧ shape.nominalName? = none ∧ shape.components = [] ∧
      shape.isPlaceholder = false
  | name early s => TypeSlot L c s x ∨ early = false ∧ ∃ y, TypeSlot L c s y ∧
      (c.types.get x).nominalName? = some s ∧ (c.types.get y).Stays (Unambiguous L) (c.types.get x)
  | generic s m => ∃ y, c.nodeType? m = some y ∧ c.types.get x = .generic s [y]
  | function result ps => ∃ r slots, Result L c r result ∧ Fields c ps slots ∧
      c.types.get x = .function r slots
  | record fields => ∃ scope slots, Fields c fields slots ∧ c.types.get x = .record scope slots
  | enumItem s payload => ∃ scope slots, Holders c payload slots ∧
      c.types.get x = .enumItem scope s slots
  | inlineEnum items => ∃ scope slots, Holders c items slots ∧
      c.types.get x = .inlineEnum scope slots
  | copy early m => ∃ y, c.nodeType? m = some y ∧ c.types.get x ≠ .unknown ∧
      (c.types.get y).Stays (Unambiguous L ∧ early = false) (c.types.get x)
  | object base s fields => (c.types.get x).nominalName? = some s ∧
      (Unambiguous L → ∃ scope b slots,
        c.scopeOf? n = some scope ∧ Base c base b ∧ Fields c fields slots ∧
        c.types.get x = .object scope b s slots)
  | enum s items => (c.types.get x).nominalName? = some s ∧
      (Unambiguous L → ∃ scope slots, c.scopeOf? n = some scope ∧ Holders c items slots ∧
        c.types.get x = .enum scope s slots)

/-- The annotation that a declaration has its type from. -/
def sources : Layer → List NodeId
  | copy _ m => [m]
  | _ => []

/-- Whether the layer says something about the class or enum that is named, beyond its slot. -/
def isLate : Layer → Bool
  | name early _ | copy early _ => !early
  | _ => false

/-- Whether the layer is one of an annotation. -/
def isWritten (early : Bool) : Layer → Bool
  | name e _ => e = early
  | copy .. | object .. | enum .. => false
  | _ => true

lemma sources_of_isWritten {early : Bool} (h : layer.isWritten early = true) :
    layer.sources = [] := by
  cases layer with
  | copy => cases h
  | _ => rfl

lemma isLate_of_isWritten (h : layer.isWritten true = true) : layer.isLate = false := by
  cases layer with
  | name e => simp_all [isWritten, isLate]
  | copy => cases h
  | _ => rfl

section Mono

variable (hn : ∀ n x, c.nodeType? n = some x → c'.nodeType? n = some x)
include hn

lemma Holders.mono {ms : List NodeId} {slots : List Slot} (h : Holders c ms slots) :
    Holders c' ms slots :=
  h.imp fun m y hy => hn m y hy

lemma Fields.mono {ps : List (String × NodeId)} {slots : List (String × Slot)}
    (h : Fields c ps slots) : Fields c' ps slots :=
  h.imp fun _ _ hf => ⟨hf.1, hn _ _ hf.2⟩

lemma Base.mono {base : Option NodeId} {b : Option Slot} (h : Base c base b) :
    Base c' base b := by
  cases base <;> cases b <;> first | exact h | exact hn _ _ h

end Mono

section Unique

variable {base : Option NodeId} {b b' : Option Slot} {ms : List NodeId}
  {ps : List (String × NodeId)}

lemma Base.unique (h : Base c base b) (h' : Base c base b') : b = b' := by
  cases base <;> cases b <;> cases b' <;>
    first | rfl | exact False.elim h | exact False.elim h' | exact h.symm.trans h'

lemma Holders.unique {xs ys : List Slot} (h : Holders c ms xs) (h' : Holders c ms ys) : xs = ys :=
  List.right_unique_forall₂' (fun _ _ _ hx hy => Option.some.inj (hx.symm.trans hy)) h h'

lemma Fields.unique {fs gs : List (String × Slot)} (h : Fields c ps fs) (h' : Fields c ps gs) :
    fs = gs :=
  List.right_unique_forall₂' (fun _ _ _ hf hg => Prod.ext (hf.1.symm.trans hg.1)
    (Option.some.inj (hf.2.symm.trans hg.2))) h h'

end Unique

section Touches

variable (ht : Touches L ns c c')
include ht

lemma Holders.touches {ms : List NodeId} {slots : List Slot} (h : Holders c ms slots) :
    Holders c' ms slots :=
  h.mono ht.nodeType

lemma Fields.touches {ps : List (String × NodeId)} {slots : List (String × Slot)}
    (h : Fields c ps slots) : Fields c' ps slots :=
  h.mono ht.nodeType

lemma Base.touches {base : Option NodeId} {b : Option Slot} (h : Base c base b) :
    Base c' base b :=
  h.mono ht.nodeType

/-- The slot of a missing result belongs to nobody, and so it is never written. -/
lemma Result.touches {r : Slot} {result : Option NodeId} (h : Result L c r result) :
    Result L c' r result := by
  cases result with
  | some m => exact ht.nodeType m r h
  | none =>
    obtain ⟨hvoid, hfree⟩ := h
    have hlt : r < c.types.size := by
      by_contra hle
      rw [TypeStore.get_eq_unknown _ (Nat.le_of_not_lt hle)] at hvoid
      cases hvoid
    refine ⟨?_, fun n hn hnr => ?_⟩
    · rcases ht.get r hlt with hs | ⟨n, -, hk, hnr, -⟩ | ⟨n, -, _, hk, hnr, -⟩
      · rw [hvoid] at hs
        exact hs.eq_of_plain rfl
      · exact absurd hnr (hfree n hk)
      · exact absurd hnr (hfree n (mem_keys hk))
    · refine hfree n hn (ht.nodeType_back hlt hnr ?_)
      rintro name ⟨d, hd, hdr⟩
      exact hfree d (mem_keys hd) hdr

variable (ha : c.Arranged L)
include ha

/-- What an annotation holds changes only together with the class or enum that it shares the slot
of. -/
lemma source_stays (hm : m ∈ L.map Prod.fst) (hmy : c.nodeType? m = some y) (hns : m ∉ ns) :
    (c.types.get y).Stays (Unambiguous L) (c'.types.get y) ∨
      (∃ d ∈ ns, ∃ name, (d, Tag.type name) ∈ L) ∧
      (c.types.get y = .unknown ∨ (c.types.get y).Stays False (c'.types.get y)) := by
  rcases ht.get y (ha.lt m y hm hmy) with hs | ⟨n, hn, hk, hny, hs⟩ | ⟨d, hd, name, hname, -, hs⟩
  · exact .inl hs
  · have hne : n ≠ m := by
      rintro rfl
      exact hns hn
    obtain ⟨name, htype⟩ := ha.shared n m y hk hm hne hny hmy
    exact absurd htype (hs name)
  · exact .inr ⟨⟨d, hd, name, hname⟩, hs⟩

/-- **A layer stays** when the step comes neither to its node nor to the annotation it copies. -/
lemma Holds.touches (hsuits : layer.Suits L n)
    (hx : c.nodeType? n = some x) (hn : n ∉ ns)
    (hsources : ∀ m ∈ layer.sources, m ∉ ns ∧ m ∈ L.map Prod.fst)
    (hlate : layer.isLate = true → ∀ m ∈ ns, ∀ name, (m, Tag.type name) ∉ L)
    (h : layer.Holds L c n x) : layer.Holds L c' n x := by
  have hplain : (n, Tag.plain) ∈ L → (c.types.get x).nominalName? = none →
      c'.types.get x = c.types.get x := fun hp hnone =>
    (ht.private_stays ha (.inl hp) hx hn).eq_of_plain hnone
  cases layer with
  | leaf shape =>
    obtain ⟨hget, hrest⟩ := h
    refine ⟨?_, hrest⟩
    rw [hplain hsuits (by rw [hget]; exact hrest.1), hget]
  | name early s =>
    rcases h with htype | ⟨hearly, y, htype, hname, hstays⟩
    · exact .inl (htype.touches ht)
    · obtain ⟨d, hd, hdy⟩ := htype
      have hns := hlate (by rw [isLate, hearly]; rfl)
      have hy := ht.type_stays ha hd hdy fun hm => hns d hm s hd
      have hxs : (c.types.get x).Stays (Unambiguous L) (c'.types.get x) := by
        rcases source_stays ht ha (mem_keys hsuits) hx hn with hs | ⟨⟨d', hd', s', hs'⟩, -⟩
        · exact hs
        · exact absurd hs' (hns d' hd' s')
      refine .inr ⟨hearly, y, ⟨d, hd, ht.nodeType d y hdy⟩, ?_, ?_⟩
      · rw [hxs.nominalName?]
        exact hname
      · exact (hy.symm.trans hstays).trans hxs
  | generic s m =>
    obtain ⟨y, hy, hget⟩ := h
    exact ⟨y, ht.nodeType m y hy, by rw [hplain hsuits (by rw [hget]; rfl), hget]⟩
  | function result ps =>
    obtain ⟨r, slots, hr, hslots, hget⟩ := h
    exact ⟨r, slots, hr.touches ht, hslots.touches ht,
      by rw [hplain hsuits (by rw [hget]; rfl), hget]⟩
  | record fields =>
    obtain ⟨scope, slots, hslots, hget⟩ := h
    exact ⟨scope, slots, hslots.touches ht, by rw [hplain hsuits (by rw [hget]; rfl), hget]⟩
  | enumItem s payload =>
    obtain ⟨scope, slots, hslots, hget⟩ := h
    exact ⟨scope, slots, hslots.touches ht, by rw [hplain hsuits (by rw [hget]; rfl), hget]⟩
  | inlineEnum items =>
    obtain ⟨scope, slots, hslots, hget⟩ := h
    exact ⟨scope, slots, hslots.touches ht, by rw [hplain hsuits (by rw [hget]; rfl), hget]⟩
  | copy early m =>
    obtain ⟨y, hy, hknown, hstays⟩ := h
    obtain ⟨hmns, hmkeys⟩ := hsources m (List.mem_singleton_self m)
    have hxs := ht.private_stays ha hsuits hx hn
    refine ⟨y, ht.nodeType m y hy, fun hu => hknown ?_, ?_⟩
    · rw [hu] at hxs
      exact (hxs.symm.eq_of_plain rfl)
    · have hys : (c.types.get y).Stays (Unambiguous L ∧ early = false) (c'.types.get y) := by
        rcases source_stays ht ha hmkeys hy hmns with hs | ⟨⟨d, hd, s, hs⟩, hs'⟩
        · exact hs.weaken And.left
        · cases early with
          | false => exact absurd hs (hlate rfl d hd s)
          | true =>
            rcases hs' with hu | hs'
            · rw [hu] at hstays
              exact absurd (hstays.eq_of_plain rfl) hknown
            · exact hs'.weaken fun h => nomatch h.2
      exact (hys.symm.trans hstays).trans (hxs.weaken And.left)
  | object base s fields =>
    have hxs := ht.type_stays ha hsuits hx hn
    refine ⟨hxs.nominalName?.trans h.1, fun hq => ?_⟩
    obtain ⟨scope, b, slots, hscope, hbase, hslots, hget⟩ := h.2 hq
    exact ⟨scope, b, slots, (ht.scopeOf n (mem_keys hsuits) hn).trans hscope, hbase.touches ht,
      hslots.touches ht,
      (hxs.eq hq).trans hget⟩
  | enum s items =>
    have hxs := ht.type_stays ha hsuits hx hn
    refine ⟨hxs.nominalName?.trans h.1, fun hq => ?_⟩
    obtain ⟨scope, slots, hscope, hslots, hget⟩ := h.2 hq
    exact ⟨scope, slots, (ht.scopeOf n (mem_keys hsuits) hn).trans hscope, hslots.touches ht,
      (hxs.eq hq).trans hget⟩

end Touches

/-- **A layer is kept** where the slots that it is about hold what they held. -/
lemma Holds.kept (hnodes : ∀ n x, c.nodeType? n = some x → c'.nodeType? n = some x)
    (hkeys : ∀ n ∈ L.map Prod.fst, c'.nodeType? n = c.nodeType? n)
    (htypes : ∀ name y,
      TypeSlot L c name y → (c.types.get y).Stays (Unambiguous L) (c'.types.get y))
    (hx : (c.types.get x).Stays (Unambiguous L) (c'.types.get x))
    (hsources : ∀ m ∈ layer.sources, ∀ y, c.nodeType? m = some y →
      (c.types.get y).Stays (Unambiguous L) (c'.types.get y))
    (hvoid : ∀ r ps, c.types.get x = .function r ps → Result L c r none → c'.types.get r = .void)
    (hsuits : layer.Suits L n) (hn : ∀ name, (n, Tag.type name) ∉ L)
    (h : layer.Holds L c n x) : layer.Holds L c' n x := by
  have hplain : (c.types.get x).nominalName? = none → c'.types.get x = c.types.get x :=
    hx.eq_of_plain
  cases layer with
  | leaf shape =>
    obtain ⟨hget, hrest⟩ := h
    exact ⟨(hplain (by rw [hget]; exact hrest.1)).trans hget, hrest⟩
  | name early s =>
    rcases h with ⟨d, hd, hdx⟩ | ⟨hearly, y, ⟨d, hd, hdy⟩, hname, hstays⟩
    · exact .inl ⟨d, hd, hnodes d x hdx⟩
    · exact .inr ⟨hearly, y, ⟨d, hd, hnodes d y hdy⟩, hx.nominalName?.trans hname,
        ((htypes s y ⟨d, hd, hdy⟩).symm.trans hstays).trans hx⟩
  | generic s m =>
    obtain ⟨y, hy, hget⟩ := h
    exact ⟨y, hnodes m y hy, (hplain (by rw [hget]; rfl)).trans hget⟩
  | function result ps =>
    obtain ⟨r, slots, hr, hslots, hget⟩ := h
    refine ⟨r, slots, ?_, hslots.mono hnodes, (hplain (by rw [hget]; rfl)).trans hget⟩
    cases result with
    | some m => exact hnodes m r hr
    | none =>
      refine ⟨hvoid r slots hget hr, fun m hm hmr => hr.2 m hm ?_⟩
      rwa [hkeys m hm] at hmr
  | record fields =>
    obtain ⟨scope, slots, hslots, hget⟩ := h
    exact ⟨scope, slots, hslots.mono hnodes, (hplain (by rw [hget]; rfl)).trans hget⟩
  | enumItem s payload =>
    obtain ⟨scope, slots, hslots, hget⟩ := h
    exact ⟨scope, slots, hslots.mono hnodes, (hplain (by rw [hget]; rfl)).trans hget⟩
  | inlineEnum items =>
    obtain ⟨scope, slots, hslots, hget⟩ := h
    exact ⟨scope, slots, hslots.mono hnodes, (hplain (by rw [hget]; rfl)).trans hget⟩
  | copy early m =>
    obtain ⟨y, hy, hknown, hstays⟩ := h
    have hys := (hsources m (List.mem_singleton_self m) y hy).weaken (And.left (b := early = false))
    refine ⟨y, hnodes m y hy, fun hu => hknown ?_,
      (hys.symm.trans hstays).trans (hx.weaken And.left)⟩
    rw [hu] at hx
    exact hx.symm.eq_of_plain rfl
  | object _ s | enum s => exact absurd hsuits (hn s)

end Layer

namespace Context

variable {L : List (NodeId × Tag)} {c c' : Context} {ns : List NodeId}
  {ls ls' : List (NodeId × Layer)}

/-- Each node holds its layer. -/
def Signed (L : List (NodeId × Tag)) (ls : List (NodeId × Layer)) (c : Context) : Prop :=
  ∀ p ∈ ls, ∃ x, c.nodeType? p.1 = some x ∧ p.2.Suits L p.1 ∧ p.2.Holds L c p.1 x

/-- A step to the nodes in `ns` is apart from the layers. -/
structure Apart (L : List (NodeId × Tag)) (ns : List NodeId) (ls : List (NodeId × Layer)) :
    Prop where
  nodes : ∀ p ∈ ls, p.1 ∉ ns
  sources : ∀ p ∈ ls, ∀ m ∈ p.2.sources, m ∉ ns ∧ m ∈ L.map Prod.fst
  late : ∀ p ∈ ls, p.2.isLate = true → ∀ m ∈ ns, ∀ name, (m, Tag.type name) ∉ L

lemma Signed.touches (h : Signed L ls c) (ha : c.Arranged L)
    (ht : Touches L ns c c') (hapart : Apart L ns ls) : Signed L ls c' := by
  intro p hp
  obtain ⟨x, hx, hsuits, hholds⟩ := h p hp
  exact ⟨x, ht.nodeType _ x hx, hsuits, hholds.touches ht ha hsuits hx
    (hapart.nodes p hp) (hapart.sources p hp) (hapart.late p hp)⟩

/-- Layers are kept where the slots that they are about hold what they held. -/
lemma Signed.kept (h : Signed L ls c)
    (hnodes : ∀ n x, c.nodeType? n = some x → c'.nodeType? n = some x)
    (hkeys : ∀ n ∈ L.map Prod.fst, c'.nodeType? n = c.nodeType? n)
    (htypes : ∀ name y,
      TypeSlot L c name y → (c.types.get y).Stays (Unambiguous L) (c'.types.get y))
    (hls : ∀ p ∈ ls, ∀ name, (p.1, Tag.type name) ∉ L)
    (hstays : ∀ p ∈ ls, ∀ m ∈ p.1 :: p.2.sources, ∀ x, c.nodeType? m = some x →
      (c.types.get x).Stays (Unambiguous L) (c'.types.get x))
    (hvoid : ∀ p ∈ ls, ∀ x r ps, c.nodeType? p.1 = some x → c.types.get x = .function r ps →
      Layer.Result L c r none → c'.types.get r = .void) : Signed L ls c' := by
  intro p hp
  obtain ⟨x, hx, hsuits, hholds⟩ := h p hp
  refine ⟨x, hnodes _ x hx, hsuits, hholds.kept hnodes hkeys htypes ?_ ?_ ?_ hsuits (hls p hp)⟩
  · exact hstays p hp _ List.mem_cons_self x hx
  · exact fun m hm => hstays p hp m (List.mem_cons_of_mem _ hm)
  · exact fun r ps => hvoid p hp x r ps hx

end Context

/-! ### Annotations -/

/-- The layer of an annotation that is a name. With a wrong number of arguments it is one that no
node holds. -/
def TypeExpr.layer (early : Bool) (name : String) : List TypeExpr → Layer
  | [] =>
    if TypeExpr.isReference name [] then .name early name
    else .leaf ((Shape.builtin? name).getD .unknown)
  | [argument] =>
    if TypeExpr.isConstructor name then .generic name argument.node.id else .leaf .unknown
  | _ => .leaf .unknown

/-- The parameters of a function type go by their places. -/
def TypeExpr.places (parameters : List TypeExpr) : List (String × NodeId) :=
  parameters.zipIdx.map fun p => (toString p.2, p.1.node.id)

mutual

/-- What the nodes of an annotation hold. -/
def TypeExpr.layers (early : Bool) : TypeExpr → List (NodeId × Layer)
  | .named node name arguments =>
    (node.id, TypeExpr.layer early name.name arguments) :: TypeExpr.layersAll early arguments
  | .function node parameters returns =>
    (node.id, .function (returns.map (·.node.id)) (TypeExpr.places parameters)) ::
      (TypeExpr.layersAll early parameters ++ match returns with
        | some type => type.layers early
        | none => [])
  | .record node fields =>
    (node.id, .record (fields.map fun f => (f.name.name, f.type.node.id))) ::
      FieldType.layersAll early fields
  | .inlineEnum node items =>
    (node.id, .inlineEnum (items.map (·.id))) :: EnumItem.layersAll early items

def TypeExpr.layersAll (early : Bool) : List TypeExpr → List (NodeId × Layer)
  | [] => []
  | type :: rest => type.layers early ++ TypeExpr.layersAll early rest

def FieldType.layersAll (early : Bool) : List FieldType → List (NodeId × Layer)
  | [] => []
  | ⟨_, _, type⟩ :: rest => type.layers early ++ FieldType.layersAll early rest

def EnumItem.layers (early : Bool) : EnumItem → List (NodeId × Layer)
  | ⟨node, name, payload⟩ =>
    (node.id, .enumItem name.name (payload.map (·.node.id))) :: TypeExpr.layersAll early payload

def EnumItem.layersAll (early : Bool) : List EnumItem → List (NodeId × Layer)
  | [] => []
  | item :: rest => item.layers early ++ EnumItem.layersAll early rest

end

mutual

lemma TypeExpr.layers_fst (early : Bool) :
    ∀ type : TypeExpr, (type.layers early).map Prod.fst = type.nodes
  | .named _ _ arguments => by
    simp [TypeExpr.layers, TypeExpr.nodes, TypeExpr.layersAll_fst early arguments]
  | .function _ parameters none => by
    simp [TypeExpr.layers, TypeExpr.nodes, TypeExpr.layersAll_fst early parameters]
  | .function _ parameters (some type) => by
    simp [TypeExpr.layers, TypeExpr.nodes, TypeExpr.layersAll_fst early parameters,
      TypeExpr.layers_fst early type]
  | .record _ fields => by
    simp [TypeExpr.layers, TypeExpr.nodes, FieldType.layersAll_fst early fields]
  | .inlineEnum _ items => by
    simp [TypeExpr.layers, TypeExpr.nodes, EnumItem.layersAll_fst early items]

lemma TypeExpr.layersAll_fst (early : Bool) : ∀ types : List TypeExpr,
    (TypeExpr.layersAll early types).map Prod.fst = TypeExpr.nodesAll types
  | [] => rfl
  | type :: rest => by
    simp [TypeExpr.layersAll, TypeExpr.nodesAll, TypeExpr.layers_fst early type,
      TypeExpr.layersAll_fst early rest]

lemma FieldType.layersAll_fst (early : Bool) : ∀ fields : List FieldType,
    (FieldType.layersAll early fields).map Prod.fst = FieldType.nodesAll fields
  | [] => rfl
  | ⟨_, _, type⟩ :: rest => by
    simp [FieldType.layersAll, FieldType.nodesAll, TypeExpr.layers_fst early type,
      FieldType.layersAll_fst early rest]

lemma EnumItem.layers_fst (early : Bool) :
    ∀ item : EnumItem, (item.layers early).map Prod.fst = item.nodes
  | ⟨_, _, payload⟩ => by
    simp [EnumItem.layers, EnumItem.nodes, TypeExpr.layersAll_fst early payload]

lemma EnumItem.layersAll_fst (early : Bool) : ∀ items : List EnumItem,
    (EnumItem.layersAll early items).map Prod.fst = EnumItem.nodesAll items
  | [] => rfl
  | item :: rest => by
    simp [EnumItem.layersAll, EnumItem.nodesAll, EnumItem.layers_fst early item,
      EnumItem.layersAll_fst early rest]

end

lemma TypeExpr.isWritten_layer (early : Bool) (name : String) (arguments : List TypeExpr) :
    (TypeExpr.layer early name arguments).isWritten early = true := by
  rcases arguments with _ | ⟨argument, _ | _⟩
  · rw [TypeExpr.layer]
    split <;> simp [Layer.isWritten]
  · rw [TypeExpr.layer]
    split <;> rfl
  · rfl

mutual

/-- Every node of an annotation has a layer of an annotation. -/
lemma TypeExpr.isWritten_layers (early : Bool) :
    ∀ {type : TypeExpr}, ∀ p ∈ type.layers early, p.2.isWritten early = true
  | .named _ _ _ => List.forall_mem_cons.mpr
    ⟨TypeExpr.isWritten_layer _ _ _, TypeExpr.isWritten_layersAll early⟩
  | .function _ _ none => by
    simp only [TypeExpr.layers, List.append_nil]
    exact List.forall_mem_cons.mpr ⟨rfl, TypeExpr.isWritten_layersAll early⟩
  | .function _ _ (some _) => List.forall_mem_cons.mpr ⟨rfl, List.forall_mem_append.mpr
    ⟨TypeExpr.isWritten_layersAll early, TypeExpr.isWritten_layers early⟩⟩
  | .record _ _ => List.forall_mem_cons.mpr ⟨rfl, FieldType.isWritten_layersAll early⟩
  | .inlineEnum _ _ => List.forall_mem_cons.mpr ⟨rfl, EnumItem.isWritten_layersAll early⟩

lemma TypeExpr.isWritten_layersAll (early : Bool) :
    ∀ {types : List TypeExpr}, ∀ p ∈ TypeExpr.layersAll early types, p.2.isWritten early = true
  | [] => by simp [TypeExpr.layersAll]
  | _ :: _ => List.forall_mem_append.mpr
    ⟨TypeExpr.isWritten_layers early, TypeExpr.isWritten_layersAll early⟩

lemma FieldType.isWritten_layersAll (early : Bool) :
    ∀ {fields : List FieldType}, ∀ p ∈ FieldType.layersAll early fields, p.2.isWritten early = true
  | [] => by simp [FieldType.layersAll]
  | ⟨_, _, _⟩ :: _ => List.forall_mem_append.mpr
    ⟨TypeExpr.isWritten_layers early, FieldType.isWritten_layersAll early⟩

lemma EnumItem.isWritten_layers (early : Bool) :
    ∀ {item : EnumItem}, ∀ p ∈ item.layers early, p.2.isWritten early = true
  | ⟨_, _, _⟩ => List.forall_mem_cons.mpr ⟨rfl, TypeExpr.isWritten_layersAll early⟩

lemma EnumItem.isWritten_layersAll (early : Bool) :
    ∀ {items : List EnumItem}, ∀ p ∈ EnumItem.layersAll early items, p.2.isWritten early = true
  | [] => by simp [EnumItem.layersAll]
  | _ :: _ => List.forall_mem_append.mpr
    ⟨EnumItem.isWritten_layers early, EnumItem.isWritten_layersAll early⟩

end

/-- What the node of an annotation itself holds. -/
def TypeExpr.head (early : Bool) : TypeExpr → Layer
  | .named _ name arguments => TypeExpr.layer early name.name arguments
  | .function _ parameters returns =>
    .function (returns.map (·.node.id)) (TypeExpr.places parameters)
  | .record _ fields => .record (fields.map fun f => (f.name.name, f.type.node.id))
  | .inlineEnum _ items => .inlineEnum (items.map (·.id))

lemma TypeExpr.head_mem (early : Bool) (type : TypeExpr) :
    (type.node.id, type.head early) ∈ type.layers early := by
  rcases type with _ | ⟨_, _, _ | _⟩ | _ | _ <;> exact List.mem_cons_self

lemma TypeExpr.isWritten_head (early : Bool) (type : TypeExpr) :
    (type.head early).isWritten early = true :=
  TypeExpr.isWritten_layers early _ (type.head_mem early)

/-- Whether the node is the declaration of a class or an enum. -/
def Tag.isType : Tag → Bool
  | .type _ => true
  | _ => false

mutual

/-- No node of an annotation declares a type. -/
lemma TypeExpr.isType_tags : ∀ {type : TypeExpr}, ∀ p ∈ type.tags, p.2.isType = false
  | .named _ name arguments => by
    refine List.forall_mem_cons.mpr ⟨?_, TypeExpr.isType_tagsAll⟩
    change Tag.isType (if TypeExpr.isReference name.name arguments then _ else _) = false
    split <;> rfl
  | .function _ _ none => by
    simp only [TypeExpr.tags, List.append_nil]
    exact List.forall_mem_cons.mpr ⟨rfl, TypeExpr.isType_tagsAll⟩
  | .function _ _ (some _) => List.forall_mem_cons.mpr
    ⟨rfl, List.forall_mem_append.mpr ⟨TypeExpr.isType_tagsAll, TypeExpr.isType_tags⟩⟩
  | .record _ _ => List.forall_mem_cons.mpr ⟨rfl, FieldType.isType_tagsAll⟩
  | .inlineEnum _ _ => List.forall_mem_cons.mpr ⟨rfl, EnumItem.isType_tagsAll⟩

lemma TypeExpr.isType_tagsAll :
    ∀ {types : List TypeExpr}, ∀ p ∈ TypeExpr.tagsAll types, p.2.isType = false
  | [] => by simp [TypeExpr.tagsAll]
  | _ :: _ => List.forall_mem_append.mpr ⟨TypeExpr.isType_tags, TypeExpr.isType_tagsAll⟩

lemma FieldType.isType_tagsAll :
    ∀ {fields : List FieldType}, ∀ p ∈ FieldType.tagsAll fields, p.2.isType = false
  | [] => by simp [FieldType.tagsAll]
  | ⟨_, _, _⟩ :: _ => List.forall_mem_append.mpr ⟨TypeExpr.isType_tags, FieldType.isType_tagsAll⟩

lemma EnumItem.isType_tags : ∀ {item : EnumItem}, ∀ p ∈ item.tags, p.2.isType = false
  | ⟨_, _, _⟩ => List.forall_mem_cons.mpr ⟨rfl, TypeExpr.isType_tagsAll⟩

lemma EnumItem.isType_tagsAll :
    ∀ {items : List EnumItem}, ∀ p ∈ EnumItem.tagsAll items, p.2.isType = false
  | [] => by simp [EnumItem.tagsAll]
  | _ :: _ => List.forall_mem_append.mpr ⟨EnumItem.isType_tags, EnumItem.isType_tagsAll⟩

end

/-- Nodes that are known by tags of `L`, none of which declares a type. -/
lemma not_type_of_tags (hL : (L.map Prod.fst).Nodup) (hfst : T.map Prod.fst = ns)
    (hT : ∀ p ∈ T, p ∈ L) (htype : ∀ p ∈ T, p.2.isType = false) :
    ∀ n ∈ ns, ∀ name, (n, Tag.type name) ∉ L := by
  subst hfst
  intro n hn name hname
  obtain ⟨⟨n', t⟩, hp, rfl⟩ := List.mem_map.mp hn
  have := htype _ hp
  rw [tag_unique hL (hT _ hp) hname] at this
  cases this

lemma keys_of_tags (hfst : T.map Prod.fst = ns) (hT : ∀ p ∈ T, p ∈ L) :
    ∀ n ∈ ns, n ∈ L.map Prod.fst := by
  subst hfst
  intro n hn
  obtain ⟨p, hp, rfl⟩ := List.mem_map.mp hn
  exact List.mem_map_of_mem (hT p hp)

namespace Context

variable {L : List (NodeId × Tag)} {c c1 c' : Context} {n : NodeId} {x : Slot}
  {shape : Shape} {ms : List NodeId} {ls : List (NodeId × Layer)}

lemma Signed.append {ls' : List (NodeId × Layer)} (h : Signed L ls c) (h' : Signed L ls' c) :
    Signed L (ls ++ ls') c :=
  List.forall_mem_append.mpr ⟨h, h'⟩

/-- The last step at a node that is no name, after those at its parts. -/
lemma Touches.setShape (h : Touches L ms c c1)
    (ht : (n, Tag.plain) ∈ L) (hs : c1.setShape n shape = (x, c')) :
    Touches L (n :: ms) c c' :=
  (h.trans (h.arranged.touches_setShape ht (List.mem_singleton_self n) hs)).mono
    (by simp [or_comm])

lemma Arranged.get_of_setShape (h : c.Arranged L) (hn : n ∈ L.map Prod.fst)
    (hs : c.setShape n shape = (x, c')) : c'.types.get x = shape := by
  rcases hc : c.nodeType? n with _ | y
  · rw [setShape_of_none hc] at hs
    cases hs
    exact (TypeStore.get_alloc _ _ _).trans (if_pos rfl)
  · rw [setShape_of_some hc] at hs
    cases hs
    exact (TypeStore.get_set _ _ _ _ (h.lt n x hn hc)).trans (if_pos rfl)

/-- The layer of a node joins those of its parts. -/
lemma Signed.setShape (hsigned : Signed L ls c) (h : c.Arranged L)
    (hls : ∀ p ∈ ls, p.1 ≠ n ∧ p.2.sources = []) (ht : (n, Tag.plain) ∈ L) {layer : Layer}
    (hsuits : layer.Suits L n) (hs : c.setShape n shape = (x, c'))
    (hholds : Touches L [n] c c' → c'.types.get x = shape → layer.Holds L c' n x) :
    Signed L ((n, layer) :: ls) c' := by
  have htouch : Touches L [n] c c' := h.touches_setShape ht (List.mem_singleton_self n) hs
  refine List.forall_mem_cons.mpr ⟨⟨x, nodeType?_of_setShape hs, hsuits,
    hholds htouch (h.get_of_setShape (mem_keys ht) hs)⟩, ?_⟩
  refine hsigned.touches h htouch ⟨?_, ?_, ?_⟩
  · intro p hp hm
    exact (hls p hp).1 (List.mem_singleton.mp hm)
  · intro p hp m hm
    rw [(hls p hp).2] at hm
    cases hm
  · intro p _ _ m hm name hname
    rw [List.mem_singleton.mp hm] at hname
    cases h.tag_unique ht hname

end Context

namespace TypeExpr

open Context
open Layer (Holders Fields Result Holds Suits)

variable {L : List (NodeId × Tag)} {tolerance : Tolerance} {early : Bool}
  {c c' : Context} {ms : List NodeId} {n : NodeId} {x : Slot} {type : TypeExpr}

lemma fields_places {types : List TypeExpr} {slots : List Slot}
    (h : Holders c (types.map (·.node.id)) slots) :
    Fields c (places types) (slots.zipIdx.map fun p => (toString p.2, p.1)) := by
  have haux : ∀ (types : List TypeExpr) (slots : List Slot) (k : Nat),
      Holders c (types.map (·.node.id)) slots →
        Fields c ((types.zipIdx k).map fun p => (toString p.2, p.1.node.id))
          ((slots.zipIdx k).map fun p => (toString p.2, p.1)) := by
    intro types
    induction types with
    | nil =>
      intro slots k h
      cases h
      exact .nil
    | cons type rest ih =>
      intro slots k h
      cases h with
      | cons hx hrest => exact .cons ⟨rfl, hx⟩ (ih _ (k + 1) hrest)
  exact haux types slots 0 h

/-- The name of a class or an enum. -/
lemma signed_resolveDeclared {node : Node} {name : String} {k : Nat}
    (h : c.Arranged L) (ht : (node.id, Tag.name name) ∈ L)
    (hc : Nameable L early [node.id] c) (hr : Runs (resolveDeclared tolerance node name k) c x c') :
    Touches L [node.id] c c' ∧
      (tolerance = .strict → Signed L [(node.id, .name early name)] c') := by
  have hmem := List.mem_singleton_self node.id
  rcases runs_resolveDeclared.mp hr with ⟨d, y, c1, hd, -, hs, hb⟩ | ⟨-, hlenient, hs⟩
  · have hdecl := h.type_declaration hd
    have h1 : Touches L [] c c1 := h.touches_slotOf hdecl (.inr ⟨name, hdecl⟩) hs
    have hdy := nodeType?_of_slotOf hs
    have hc1 : Nameable L early [node.id] c1 := by
      refine hc.touches h h1 (by simp) ?_ (by simp)
      intro n hn name' hname'
      rw [List.mem_singleton.mp hn] at hname'
      cases h.tag_unique ht hname'
    have hnamed : c1.Named L ∨ c1.nodeType? node.id = none :=
      hc1.imp And.left fun h => h _ hmem (mem_keys ht)
    have h2 : Touches L [node.id] c1 c' :=
      h1.arranged.touches_bind ht hmem hdecl hdy hnamed hb
    refine ⟨h1.trans h2, fun _ => ?_⟩
    refine List.forall_mem_singleton.mpr ⟨x, nodeType?_of_bind hb, ht, ?_⟩
    rcases hn : c1.nodeType? node.id with _ | z
    · rw [bind_of_none hn] at hb
      cases hb
      exact .inl ⟨d, hdecl, h2.nodeType d x hdy⟩
    · obtain ⟨hnamed1, hearly⟩ : c1.Named L ∧ early = false :=
        hc1.resolve_right fun h => by simp [h _ hmem (mem_keys ht)] at hn
      rw [bind_of_some hn] at hb
      cases hb
      have hx : x < c1.types.size := h1.arranged.lt _ x (mem_keys ht) hn
      by_cases hxy : x = y
      · subst hxy
        exact .inl ⟨d, hdecl, h2.nodeType d x hdy⟩
      · -- the node has a slot of its own, and a copy of the class or enum in it
        have hgetx : (c1.assign x y).types.get x = c1.types.get y :=
          (TypeStore.get_assign _ _ _ _ hx).trans (if_pos rfl)
        have hgety : (c1.assign x y).types.get y = c1.types.get y :=
          TypeStore.get_assign_of_ne _ (Ne.symm hxy)
        refine .inr ⟨hearly, y, ⟨d, hdecl, h2.nodeType d y hdy⟩, ?_, ?_⟩
        · rw [hgetx]
          exact hnamed1.typeSlot ⟨d, hdecl, hdy⟩
        · rw [hgetx, hgety]
          exact .refl _
  · refine ⟨h.touches_slotOf ht (.inl hmem) hs, fun hstrict => ?_⟩
    rw [hstrict] at hlenient
    cases hlenient

/-- The layers of parts that are all among some nodes. -/
lemma layers_apart {ls : List (NodeId × Layer)} (hfst : ls.map Prod.fst = ms)
    (hwritten : ∀ p ∈ ls, p.2.isWritten early = true) (hn : n ∉ ms) :
    ∀ p ∈ ls, p.1 ≠ n ∧ p.2.sources = [] := by
  intro p hp
  refine ⟨?_, Layer.sources_of_isWritten (hwritten p hp)⟩
  rintro rfl
  rw [← hfst] at hn
  exact hn (List.mem_map_of_mem hp)

/-- Parts that are resolved one after the other. -/
lemma signed_append {ns : List NodeId} {ls : List (NodeId × Layer)} {c1 c2 : Context}
    (h : c1.Arranged L) (hsigned : Signed L ls c1)
    (hfst : ls.map Prod.fst = ms) (hwritten : ∀ p ∈ ls, p.2.isWritten early = true)
    (ht : Touches L ns c1 c2) (htype : ∀ n ∈ ns, ∀ name, (n, Tag.type name) ∉ L)
    (hdisjoint : List.Disjoint ms ns) : Signed L ls c2 := by
  refine hsigned.touches h ht ⟨fun p hp hm => ?_, fun p hp m hm => ?_, fun _ _ _ => htype⟩
  · refine hdisjoint ?_ hm
    rw [← hfst]
    exact List.mem_map_of_mem hp
  · rw [Layer.sources_of_isWritten (hwritten p hp)] at hm
    cases hm

mutual

/-- **Resolving an annotation** touches its own nodes; unless names may stay open, each of them
holds its layer afterwards. -/
lemma signed_resolve :
    ∀ {type : TypeExpr} {c c' : Context} {x : Slot}, c.Arranged L → (∀ p ∈ type.tags, p ∈ L) →
      type.nodes.Nodup → Nameable L early type.nodes c → Runs (type.resolve tolerance) c x c' →
        Touches L type.nodes c c' ∧
          (tolerance = .strict → Signed L (type.layers early) c')
  | .named node name arguments, c, c', x, h, ht, hnd, hc, hr => by
    obtain ⟨htag, hargs⟩ := List.forall_mem_cons.mp ht
    obtain ⟨hnot, hnd⟩ := List.nodup_cons.mp hnd
    rcases runs_resolve_named hr with ⟨shape, rfl, hbuiltin, hs⟩ |
      ⟨argument, y, c1, rfl, hcon, hr, hs⟩ | ⟨hcon, hplain, hr⟩
    · have hplain : isReference name.name [] = false := by simp [isReference, hbuiltin]
      rw [hplain] at htag
      refine ⟨(Touches.refl h).setShape htag hs, fun _ => ?_⟩
      have hnone : Signed L [] c := by simp [Signed]
      refine hnone.setShape h (by simp) htag ?_ hs fun _ hget => ?_
      · simpa [layer, hplain, Suits] using htag
      · simpa [layer, hplain, hbuiltin, Holds] using
          ⟨hget, builtin?_plain hbuiltin, builtin?_leaf hbuiltin⟩
    · have hplain : isReference name.name [argument] = false := by simp [isReference, hcon]
      rw [hplain] at htag
      simp only [tagsAll, List.append_nil] at hargs
      simp only [nodesAll, List.append_nil] at hnot hnd
      simp only [nodes, layers, nodesAll, layersAll, List.append_nil] at hc ⊢
      obtain ⟨h1, hsigned⟩ := signed_resolve h hargs hnd hc.tail hr
      refine ⟨h1.setShape htag hs, fun hstrict => ?_⟩
      refine (hsigned hstrict).setShape h1.arranged
        (layers_apart (layers_fst early _) (isWritten_layers early) hnot) htag ?_ hs
        fun htouch hget => ?_
      · simpa [layer, hcon, Suits] using htag
      · have hy := htouch.nodeType _ y (nodeType?_resolve hr)
        simpa [layer, hcon, Holds] using ⟨y, hy, hget⟩
    · have href : isReference name.name arguments = true := by
        cases arguments with
        | nil => simp [isReference, hcon, hplain rfl]
        | cons a as => simp [isReference, hcon]
      rw [href] at htag
      have hcn : Nameable L early [node.id] c := hc.mono (by simp [nodes])
      obtain ⟨h1, hsigned⟩ := signed_resolveDeclared h htag hcn hr
      refine ⟨h1.mono (by simp [nodes]), fun hstrict => ?_⟩
      rcases runs_resolveDeclared.mp hr with ⟨d, y, c1, -, hk, -⟩ | ⟨-, hlenient, -⟩
      · obtain rfl := List.eq_nil_of_length_eq_zero hk
        simpa [layers, layersAll, layer, href] using hsigned hstrict
      · rw [hstrict] at hlenient
        cases hlenient
  | .function node parameters none, c, c', x, h, ht, hnd, hc, hr => by
    simp only [tags, List.append_nil] at ht
    simp only [nodes, layers, List.append_nil] at hnd hc ⊢
    obtain ⟨htag, hps⟩ := List.forall_mem_cons.mp ht
    obtain ⟨hnot, hnd⟩ := List.nodup_cons.mp hnd
    obtain ⟨slots, result, c1, c2, hslots, halloc, hs⟩ := runs_resolve_function hr
    obtain ⟨h1, hheld, hsigned⟩ := signed_resolveAll h hps hnd hc.tail hslots
    have halloc : c1.alloc .void = (result, c2) := halloc
    cases halloc
    have h2 : Touches L [] c1 (c1.alloc .void).2 := h1.arranged.touches_alloc .void
    have h12 : Touches L (nodesAll parameters) c (c1.alloc .void).2 := by
      simpa using h1.trans h2
    refine ⟨h12.setShape htag hs, fun hstrict => ?_⟩
    have hsigned2 := signed_append h1.arranged (hsigned hstrict) (layersAll_fst early _)
      (isWritten_layersAll early) h2 (by simp) (by simp)
    refine hsigned2.setShape h2.arranged
      (layers_apart (layersAll_fst early _) (isWritten_layersAll early) hnot) htag htag hs
      fun htouch hget => ?_
    -- the new slot of the missing result belongs to nobody
    have hresult : Result L (c1.alloc .void).2 c1.types.size none := by
      refine ⟨(TypeStore.get_alloc _ _ _).trans (if_pos rfl), fun n hn hnr => ?_⟩
      exact absurd (h1.arranged.lt n _ hn hnr) (Nat.lt_irrefl _)
    exact ⟨_, _, hresult.touches htouch, fields_places ((hheld.touches h2).touches htouch), hget⟩
  | .function node parameters (some type), c, c', x, h, ht, hnd, hc, hr => by
    simp only [tags] at ht
    simp only [nodes, layers] at hnd hc ⊢
    obtain ⟨htag, hrest⟩ := List.forall_mem_cons.mp ht
    obtain ⟨hps, hreturns⟩ := List.forall_mem_append.mp hrest
    obtain ⟨hnot, hnd⟩ := List.nodup_cons.mp hnd
    obtain ⟨hnd1, hnd2, hdisjoint⟩ := List.nodup_append'.mp hnd
    obtain ⟨slots, result, c1, c2, hslots, hresult, hs⟩ := runs_resolve_function hr
    have hresult : Runs (type.resolve tolerance) c1 result c2 := hresult
    obtain ⟨h1, hheld, hsigned1⟩ := signed_resolveAll h hps hnd1 hc.tail.left hslots
    have htype1 := not_type_of_tags h.nodup (tagsAll_fst _) hps isType_tagsAll
    have htype2 := not_type_of_tags h.nodup (tags_fst _) hreturns isType_tags
    have hc1 := hc.tail.right.touches h h1 htype1 htype2 hdisjoint
    obtain ⟨h2, hsigned2⟩ := signed_resolve h1.arranged hreturns hnd2 hc1 hresult
    refine ⟨(h1.trans h2).setShape htag hs, fun hstrict => ?_⟩
    have hsigned := (signed_append h1.arranged (hsigned1 hstrict) (layersAll_fst early _)
      (isWritten_layersAll early) h2 htype2 hdisjoint).append (hsigned2 hstrict)
    have hfst : (layersAll early parameters ++ type.layers early).map Prod.fst =
        nodesAll parameters ++ type.nodes := by
      rw [List.map_append, layersAll_fst, layers_fst]
    refine hsigned.setShape h2.arranged (layers_apart hfst (List.forall_mem_append.mpr
      ⟨isWritten_layersAll early, isWritten_layers early⟩) hnot) htag htag hs fun htouch hget => ?_
    refine ⟨result, _, htouch.nodeType _ _ (nodeType?_resolve hresult), (fields_places ?_), hget⟩
    exact (hheld.touches h2).touches htouch
  | .record node fields, c, c', x, h, ht, hnd, hc, hr => by
    obtain ⟨htag, hfields⟩ := List.forall_mem_cons.mp ht
    obtain ⟨hnot, hnd⟩ := List.nodup_cons.mp hnd
    obtain ⟨slots, c1, hslots, hs⟩ := runs_resolve_record.mp hr
    obtain ⟨h1, hheld, hsigned⟩ := signed_resolveFields h hfields hnd
      (Nameable.tail hc) hslots
    refine ⟨h1.setShape htag hs, fun hstrict => ?_⟩
    refine (hsigned hstrict).setShape h1.arranged
      (layers_apart (FieldType.layersAll_fst early _) (FieldType.isWritten_layersAll early) hnot)
      htag htag hs fun htouch hget => ?_
    exact ⟨_, slots, hheld.touches htouch, hget⟩
  | .inlineEnum node items, c, c', x, h, ht, hnd, hc, hr => by
    obtain ⟨htag, hitems⟩ := List.forall_mem_cons.mp ht
    obtain ⟨hnot, hnd⟩ := List.nodup_cons.mp hnd
    obtain ⟨slots, c1, hslots, hs⟩ := runs_resolve_inlineEnum.mp hr
    obtain ⟨h1, hheld, hsigned⟩ := signed_resolveItems h hitems hnd
      (Nameable.tail hc) hslots
    refine ⟨h1.setShape htag hs, fun hstrict => ?_⟩
    refine (hsigned hstrict).setShape h1.arranged
      (layers_apart (EnumItem.layersAll_fst early _) (EnumItem.isWritten_layersAll early) hnot)
      htag htag hs fun htouch hget => ?_
    exact ⟨_, slots, hheld.touches htouch, hget⟩

lemma signed_resolveAll :
    ∀ {types : List TypeExpr} {c c' : Context} {slots : List Slot}, c.Arranged L →
      (∀ p ∈ tagsAll types, p ∈ L) → (nodesAll types).Nodup →
      Nameable L early (nodesAll types) c → Runs (resolveAll tolerance types) c slots c' →
        Touches L (nodesAll types) c c' ∧ Holders c' (types.map (·.node.id)) slots ∧
          (tolerance = .strict → Signed L (layersAll early types) c')
  | [], c, c', slots, h, _, _, _, hr => by
    simp only [resolveAll, runs_pure] at hr
    obtain ⟨rfl, rfl⟩ := hr
    exact ⟨.refl h, .nil, fun _ => by simp [Signed, layersAll]⟩
  | type :: rest, c, c', slots, h, ht, hnd, hc, hr => by
    obtain ⟨ht1, ht2⟩ := List.forall_mem_append.mp ht
    obtain ⟨hnd1, hnd2, hdisjoint⟩ := List.nodup_append'.mp hnd
    obtain ⟨x, c1, xs, hx, hrest, rfl⟩ := runs_resolveAll_cons.mp hr
    obtain ⟨h1, hsigned1⟩ := signed_resolve h ht1 hnd1 (Nameable.left hc) hx
    have htype1 := not_type_of_tags h.nodup (tags_fst _) ht1 isType_tags
    have htype2 := not_type_of_tags h.nodup (tagsAll_fst _) ht2 isType_tagsAll
    have hc1 := (Nameable.right hc).touches h h1 htype1 htype2 hdisjoint
    obtain ⟨h2, hheld, hsigned2⟩ := signed_resolveAll h1.arranged ht2 hnd2 hc1 hrest
    refine ⟨h1.trans h2, .cons (h2.nodeType _ _ (nodeType?_resolve hx)) hheld,
      fun hstrict => ?_⟩
    exact (signed_append h1.arranged (hsigned1 hstrict) (layers_fst early _)
      (isWritten_layers early) h2 htype2 hdisjoint).append (hsigned2 hstrict)

lemma signed_resolveFields :
    ∀ {fields : List FieldType} {c c' : Context} {slots : List (String × Slot)}, c.Arranged L →
      (∀ p ∈ FieldType.tagsAll fields, p ∈ L) → (FieldType.nodesAll fields).Nodup →
      Nameable L early (FieldType.nodesAll fields) c →
      Runs (resolveFields tolerance fields) c slots c' →
        Touches L (FieldType.nodesAll fields) c c' ∧
          Fields c' (fields.map fun f => (f.name.name, f.type.node.id)) slots ∧
          (tolerance = .strict → Signed L (FieldType.layersAll early fields) c')
  | [], c, c', slots, h, _, _, _, hr => by
    simp only [resolveFields, runs_pure] at hr
    obtain ⟨rfl, rfl⟩ := hr
    exact ⟨.refl h, .nil, fun _ => by simp [Signed, FieldType.layersAll]⟩
  | ⟨_, _, type⟩ :: rest, c, c', slots, h, ht, hnd, hc, hr => by
    obtain ⟨ht1, ht2⟩ := List.forall_mem_append.mp ht
    obtain ⟨hnd1, hnd2, hdisjoint⟩ := List.nodup_append'.mp hnd
    obtain ⟨x, c1, xs, hx, hrest, rfl⟩ := runs_resolveFields_cons.mp hr
    obtain ⟨h1, hsigned1⟩ := signed_resolve h ht1 hnd1 (Nameable.left hc) hx
    have htype1 := not_type_of_tags h.nodup (tags_fst _) ht1 isType_tags
    have htype2 := not_type_of_tags h.nodup (FieldType.tagsAll_fst _) ht2 FieldType.isType_tagsAll
    have hc1 := (Nameable.right hc).touches h h1 htype1 htype2 hdisjoint
    obtain ⟨h2, hheld, hsigned2⟩ := signed_resolveFields h1.arranged ht2 hnd2 hc1 hrest
    refine ⟨h1.trans h2, .cons ⟨rfl, h2.nodeType _ _ (nodeType?_resolve hx)⟩ hheld,
      fun hstrict => ?_⟩
    exact (signed_append h1.arranged (hsigned1 hstrict) (layers_fst early _)
      (isWritten_layers early) h2 htype2 hdisjoint).append (hsigned2 hstrict)

lemma signed_resolveItem :
    ∀ {item : EnumItem} {c c' : Context} {x : Slot}, c.Arranged L → (∀ p ∈ item.tags, p ∈ L) →
      item.nodes.Nodup → Nameable L early item.nodes c → Runs (resolveItem tolerance item) c x c' →
        Touches L item.nodes c c' ∧
          (tolerance = .strict → Signed L (item.layers early) c')
  | ⟨node, name, payload⟩, c, c', x, h, ht, hnd, hc, hr => by
    obtain ⟨htag, hpayload⟩ := List.forall_mem_cons.mp ht
    obtain ⟨hnot, hnd⟩ := List.nodup_cons.mp hnd
    obtain ⟨slots, c1, hslots, hs⟩ := runs_resolveItem.mp hr
    obtain ⟨h1, hheld, hsigned⟩ := signed_resolveAll h hpayload hnd
      (Nameable.tail hc) hslots
    refine ⟨h1.setShape htag hs, fun hstrict => ?_⟩
    refine (hsigned hstrict).setShape h1.arranged
      (layers_apart (layersAll_fst early _) (isWritten_layersAll early) hnot) htag htag hs
      fun htouch hget => ?_
    exact ⟨_, slots, hheld.touches htouch, hget⟩

lemma signed_resolveItems :
    ∀ {items : List EnumItem} {c c' : Context} {slots : List Slot}, c.Arranged L →
      (∀ p ∈ EnumItem.tagsAll items, p ∈ L) → (EnumItem.nodesAll items).Nodup →
      Nameable L early (EnumItem.nodesAll items) c →
      Runs (resolveItems tolerance items) c slots c' →
        Touches L (EnumItem.nodesAll items) c c' ∧ Holders c' (items.map (·.id)) slots ∧
          (tolerance = .strict → Signed L (EnumItem.layersAll early items) c')
  | [], c, c', slots, h, _, _, _, hr => by
    simp only [resolveItems, runs_pure] at hr
    obtain ⟨rfl, rfl⟩ := hr
    exact ⟨.refl h, .nil, fun _ => by simp [Signed, EnumItem.layersAll]⟩
  | item :: rest, c, c', slots, h, ht, hnd, hc, hr => by
    obtain ⟨ht1, ht2⟩ := List.forall_mem_append.mp ht
    obtain ⟨hnd1, hnd2, hdisjoint⟩ := List.nodup_append'.mp hnd
    obtain ⟨x, c1, xs, hx, hrest, rfl⟩ := runs_resolveItems_cons.mp hr
    obtain ⟨h1, hsigned1⟩ := signed_resolveItem h ht1 hnd1 (Nameable.left hc) hx
    have htype1 := not_type_of_tags h.nodup (EnumItem.tags_fst _) ht1 EnumItem.isType_tags
    have htype2 := not_type_of_tags h.nodup (EnumItem.tagsAll_fst _) ht2 EnumItem.isType_tagsAll
    have hc1 := (Nameable.right hc).touches h h1 htype1 htype2 hdisjoint
    obtain ⟨h2, hheld, hsigned2⟩ := signed_resolveItems h1.arranged ht2 hnd2 hc1 hrest
    refine ⟨h1.trans h2, .cons (h2.nodeType _ _ (nodeType?_resolveItem hx)) hheld,
      fun hstrict => ?_⟩
    exact (signed_append h1.arranged (hsigned1 hstrict) (EnumItem.layers_fst early _)
      (EnumItem.isWritten_layers early) h2 htype2 hdisjoint).append (hsigned2 hstrict)

end

/-- Once every class and every enum has been collected, no annotation is left open. -/
lemma known_of_signed (h : Signed L (type.layers early) c) (hc : c.Named L)
    (hx : c.nodeType? type.node.id = some x) : c.types.get x ≠ .unknown := by
  have hmem := type.head_mem early
  have hform := type.isWritten_head early
  revert hmem hform
  generalize type.head early = layer
  intro hmem hform
  obtain ⟨y, hy, -, hholds⟩ := h _ hmem
  obtain rfl : y = x := Option.some.inj (hy.symm.trans hx)
  intro hu
  cases layer with
  | leaf shape =>
    obtain ⟨hget, -, -, hp⟩ := hholds
    rw [← hget, hu] at hp
    cases hp
  | name early s =>
    have hname : (c.types.get y).nominalName? = some s := by
      rcases hholds with htype | ⟨-, -, -, hname, -⟩
      · exact hc.typeSlot htype
      · exact hname
    rw [hu] at hname
    cases hname
  | generic | function | record | enumItem | inlineEnum =>
    simp only [Holds, hu] at hholds
    grind
  | copy => cases hform
  | object | enum =>
    have hname := hholds.1
    rw [hu] at hname
    cases hname

/-- The type of a declaration that is no class and no enum. -/
lemma signed_resolveInto (h : c.Arranged L)
    (hn : Private L n) (ht : ∀ p ∈ type.tags, p ∈ L) (hnd : (n :: type.nodes).Nodup)
    (hc : Nameable L early type.nodes c) (hr : Runs (resolveInto tolerance n type) c x c') :
    Touches L (n :: type.nodes) c c' ∧ c'.nodeType? n = some x ∧
      (∃ y, c'.nodeType? type.node.id = some y ∧ c'.types.get x = c'.types.get y) ∧
      (tolerance = .strict → Signed L (type.layers early) c') := by
  obtain ⟨hnot, hnd⟩ := List.nodup_cons.mp hnd
  obtain ⟨y, c1, c2, hy, hs, rfl⟩ := runs_resolveInto.mp hr
  obtain ⟨h1, hsigned⟩ := signed_resolve h ht hnd hc hy
  have hmem := List.mem_singleton_self n
  have h2 : Touches L [n] c1 c2 := by
    rcases hn with hn | hn
    · exact h1.arranged.touches_slotOf hn (.inl hmem) hs
    · exact h1.arranged.touches_slotOf hn (.inl hmem) hs
  have hx := nodeType?_of_slotOf hs
  have h3 : Touches L [n] c2 (c2.assign x y) :=
    h2.arranged.touches_assign hn hmem hx y
  have h23 : Touches L [n] c1 (c2.assign x y) := (h2.trans h3).mono (by simp)
  have hget : (c2.assign x y).types.get x = c2.types.get y :=
    (TypeStore.get_assign _ _ _ _ (h2.arranged.lt n x hn.mem_keys hx)).trans (if_pos rfl)
  have hsame : (c2.assign x y).types.get y = c2.types.get y := by
    by_cases hxy : y = x
    · subst hxy
      exact hget
    · exact TypeStore.get_assign_of_ne _ hxy
  refine ⟨(h1.trans h23).mono (by simp [or_comm]), hx,
    ⟨y, h23.nodeType _ y (nodeType?_resolve hy), hget.trans hsame.symm⟩, fun hstrict => ?_⟩
  refine signed_append h1.arranged (hsigned hstrict) (layers_fst early _)
    (isWritten_layers early) h23 ?_ (by simpa using hnot)
  · intro m hm name hname
    rw [List.mem_singleton.mp hm] at hname
    rcases hn with hn | hn <;> cases h.tag_unique hn hname

/-- A declaration has what its annotation holds, once that is known. -/
lemma signed_copy {y : Slot} (hn : Private L n) (h : Signed L (type.layers early) c)
    (hx : c.nodeType? n = some x) (hy : c.nodeType? type.node.id = some y)
    (hget : c.types.get x = c.types.get y) (hknown : c.types.get x ≠ .unknown) :
    Signed L ((n, .copy early type.node.id) :: type.layers early) c :=
  List.forall_mem_cons.mpr ⟨⟨x, hx, hn, y, hy, hknown, .inl hget⟩, h⟩

end TypeExpr

end Sema
