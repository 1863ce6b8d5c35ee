import Mathlib.Data.List.Nodup
import Sema.Proofs.Growth
import Sema.Proofs.Inversion
import Sema.Proofs.Nodes
import Sema.Proofs.Parts

/-!
How the nodes of signatures hold their slots. Two nodes share a slot only where a class or an enum
is named; a variable has its slot for itself, and no type has it for a component or a base class.
Each step that gives a node a type keeps that.
-/

namespace Sema

open Sema.Action

/-! ### What a node stands for -/

inductive Tag where
  | variable
  /-- The declaration of a class or an enum. -/
  | type (name : String)
  /-- An annotation that is the name of a class or an enum. -/
  | name (name : String)
  | plain
  deriving DecidableEq

/-- Whether a name in an annotation is neither built in nor a type constructor. -/
def TypeExpr.isReference (name : String) (arguments : List TypeExpr) : Bool :=
  !isConstructor name && (!arguments.isEmpty || (Shape.builtin? name).isNone)

mutual

/-- The nodes of an annotation, with what they stand for. -/
def TypeExpr.tags : TypeExpr → List (NodeId × Tag)
  | .named node name arguments =>
    (node.id, if TypeExpr.isReference name.name arguments then .name name.name else .plain) ::
      TypeExpr.tagsAll arguments
  | .function node parameters returns =>
    (node.id, .plain) :: (TypeExpr.tagsAll parameters ++ match returns with
      | some type => type.tags
      | none => [])
  | .record node fields => (node.id, .plain) :: FieldType.tagsAll fields
  | .inlineEnum node items => (node.id, .plain) :: EnumItem.tagsAll items

def TypeExpr.tagsAll : List TypeExpr → List (NodeId × Tag)
  | [] => []
  | type :: rest => type.tags ++ TypeExpr.tagsAll rest

def FieldType.tagsAll : List FieldType → List (NodeId × Tag)
  | [] => []
  | ⟨_, _, type⟩ :: rest => type.tags ++ FieldType.tagsAll rest

def EnumItem.tags : EnumItem → List (NodeId × Tag)
  | ⟨node, _, payload⟩ => (node.id, .plain) :: TypeExpr.tagsAll payload

def EnumItem.tagsAll : List EnumItem → List (NodeId × Tag)
  | [] => []
  | item :: rest => item.tags ++ EnumItem.tagsAll rest

end

mutual

lemma TypeExpr.tags_fst : ∀ type : TypeExpr, type.tags.map Prod.fst = type.nodes
  | .named _ _ arguments => by simp [TypeExpr.tags, TypeExpr.nodes, TypeExpr.tagsAll_fst arguments]
  | .function _ parameters none => by
    simp [TypeExpr.tags, TypeExpr.nodes, TypeExpr.tagsAll_fst parameters]
  | .function _ parameters (some type) => by
    simp [TypeExpr.tags, TypeExpr.nodes, TypeExpr.tagsAll_fst parameters, TypeExpr.tags_fst type]
  | .record _ fields => by simp [TypeExpr.tags, TypeExpr.nodes, FieldType.tagsAll_fst fields]
  | .inlineEnum _ items => by simp [TypeExpr.tags, TypeExpr.nodes, EnumItem.tagsAll_fst items]

lemma TypeExpr.tagsAll_fst :
    ∀ types : List TypeExpr, (TypeExpr.tagsAll types).map Prod.fst = TypeExpr.nodesAll types
  | [] => rfl
  | type :: rest => by
    simp [TypeExpr.tagsAll, TypeExpr.nodesAll, TypeExpr.tags_fst type, TypeExpr.tagsAll_fst rest]

lemma FieldType.tagsAll_fst :
    ∀ fields : List FieldType, (FieldType.tagsAll fields).map Prod.fst = FieldType.nodesAll fields
  | [] => rfl
  | ⟨_, _, type⟩ :: rest => by
    simp [FieldType.tagsAll, FieldType.nodesAll, TypeExpr.tags_fst type, FieldType.tagsAll_fst rest]

lemma EnumItem.tags_fst : ∀ item : EnumItem, item.tags.map Prod.fst = item.nodes
  | ⟨_, _, payload⟩ => by simp [EnumItem.tags, EnumItem.nodes, TypeExpr.tagsAll_fst payload]

lemma EnumItem.tagsAll_fst :
    ∀ items : List EnumItem, (EnumItem.tagsAll items).map Prod.fst = EnumItem.nodesAll items
  | [] => rfl
  | item :: rest => by
    simp [EnumItem.tagsAll, EnumItem.nodesAll, EnumItem.tags_fst item, EnumItem.tagsAll_fst rest]

end

def TypeExpr.tags? (type : Option TypeExpr) : List (NodeId × Tag) :=
  type.elim [] TypeExpr.tags

def Parameter.tags (p : Parameter) : List (NodeId × Tag) :=
  (p.id, .plain) :: p.type.tags

/-- The nodes of the signature of a declaration, with what they stand for. -/
def Decl.tags : Decl → List (NodeId × Tag)
  | .object c => (c.id, .type c.name.name) :: TypeExpr.tags? c.base
  | .function f =>
    (f.id, .plain) :: (f.parameters.flatMap Parameter.tags ++ TypeExpr.tags? f.returns)
  | .var v => (v.id, .variable) :: TypeExpr.tags? v.type
  | .enum e => (e.id, .type e.name.name) :: EnumItem.tagsAll e.items
  | .foreign f =>
    (f.id, .plain) :: (f.parameters.flatMap Parameter.tags ++ TypeExpr.tags? f.returns)

lemma TypeExpr.tags?_fst (type : Option TypeExpr) :
    (TypeExpr.tags? type).map Prod.fst = TypeExpr.nodes? type := by
  cases type with
  | none => rfl
  | some type => exact type.tags_fst

lemma Parameter.flatMap_tags_fst (ps : List Parameter) :
    (ps.flatMap Parameter.tags).map Prod.fst = ps.flatMap Parameter.nodes := by
  rw [List.map_flatMap]
  congr 1
  funext p
  simp [Parameter.tags, Parameter.nodes, p.type.tags_fst]

lemma Decl.tags_fst (d : Decl) : d.tags.map Prod.fst = d.signature := by
  cases d <;> simp [Decl.tags, Decl.signature, TypeExpr.tags?_fst, Parameter.flatMap_tags_fst,
    EnumItem.tagsAll_fst]

/-- The nodes of all signatures of a program. -/
def Program.layout (p : Program) : List (NodeId × Tag) :=
  p.allDecls.flatMap Decl.tags

lemma Program.layout_fst (p : Program) :
    p.layout.map Prod.fst = p.allDecls.flatMap Decl.signature := by
  rw [Program.layout, List.map_flatMap]
  congr 1
  funext d
  exact d.tags_fst

/-- A node stands for one thing only. -/
lemma tag_unique {L : List (NodeId × Tag)} (hL : (L.map Prod.fst).Nodup) {n : NodeId} {t t' : Tag}
    (h : (n, t) ∈ L) (h' : (n, t') ∈ L) : t = t' := by
  have := List.inj_on_of_nodup_map hL h h' rfl
  exact congrArg Prod.snd this

namespace Context

variable {L : List (NodeId × Tag)} {c c' : Context} {n m d v : NodeId} {t : Tag} {x y : Slot}
  {shape : Shape} {name : String} {ms ns : List NodeId}

/-- The nodes have slots. -/
def Typed (ns : List NodeId) (c : Context) : Prop :=
  ∀ n ∈ ns, ∃ x, c.nodeType? n = some x

lemma Typed.nil : c.Typed [] := by simp [Typed]

lemma Typed.cons (hn : c.nodeType? n = some x) (h : c.Typed ns) : c.Typed (n :: ns) :=
  List.forall_mem_cons.mpr ⟨⟨x, hn⟩, h⟩

lemma Typed.append (h : c.Typed ms) (h' : c.Typed ns) : c.Typed (ms ++ ns) :=
  List.forall_mem_append.mpr ⟨h, h'⟩

/-- The slot is not that of a variable. -/
structure Clear (L : List (NodeId × Tag)) (c : Context) (x : Slot) : Prop where
  lt : x < c.types.size
  not_variable : ∀ v, (v, Tag.variable) ∈ L → c.nodeType? v ≠ some x

/-- What a shape refers to is in the store, and no component or base class is the slot of a
variable. -/
structure Admits (L : List (NodeId × Tag)) (c : Context) (shape : Shape) : Prop where
  handles : ∀ y ∈ shape.handles, y < c.types.size
  parts : ∀ y ∈ shape.components ++ shape.base?.toList, ∀ v, (v, Tag.variable) ∈ L →
    c.nodeType? v ≠ some y

/-- A node with this tag holds a slot that is not that of a class or an enum. -/
def Private (L : List (NodeId × Tag)) (n : NodeId) : Prop :=
  (n, Tag.plain) ∈ L ∨ (n, Tag.variable) ∈ L

/-- The slot of a node that is not a variable. -/
def Held (L : List (NodeId × Tag)) (c : Context) (x : Slot) : Prop :=
  ∃ n t, (n, t) ∈ L ∧ t ≠ Tag.variable ∧ c.nodeType? n = some x

lemma Clear.admits (hc : ∀ y ∈ shape.components, c.Clear L y)
    (hh : ∀ y ∈ shape.nominalHandles, y < c.types.size)
    (hb : ∀ y, shape.base? = some y → c.Clear L y) : c.Admits L shape := by
  refine ⟨fun y hy => ?_, fun y hy => ?_⟩
  · rcases List.mem_append.mp hy with hy | hy
    · exact (hc y hy).lt
    · exact hh y hy
  · rcases List.mem_append.mp hy with hy | hy
    · exact (hc y hy).not_variable
    · exact (hb y (by simpa using hy)).not_variable

/-- A shape that is not that of a class or an enum. -/
lemma Clear.admits_plain (hc : ∀ y ∈ shape.components, c.Clear L y)
    (hs : shape.nominalName? = none) : c.Admits L shape := by
  refine Clear.admits hc (by simp [Shape.nominalHandles_eq_nil hs]) fun y hy => ?_
  rw [Shape.base?_eq_none hs] at hy
  cases hy

lemma admits_unknown : c.Admits L .unknown :=
  Clear.admits_plain (by simp [Shape.components]) rfl

lemma admits_void : c.Admits L .void :=
  Clear.admits_plain (by simp [Shape.components]) rfl

lemma Admits.part_lt (h : c.Admits L shape) (hy : y ∈ shape.components ++ shape.base?.toList) :
    y < c.types.size := by
  rcases List.mem_append.mp hy with hy | hy
  · exact h.handles _ (List.mem_append_left _ hy)
  · exact h.handles _ (Shape.mem_handles_of_base? (by simpa using hy))

lemma Admits.types {ts : TypeStore} (h : c.Admits L shape) (hsize : c.types.size ≤ ts.size) :
    ({ c with types := ts } : Context).Admits L shape :=
  ⟨fun y hy => (h.handles y hy).trans_le hsize, h.parts⟩

/-! ### Contexts in which the nodes of signatures hold their slots in order -/

/-- The slot of the declaration of a class or an enum. -/
def TypeSlot (L : List (NodeId × Tag)) (c : Context) (name : String) (x : Slot) : Prop :=
  ∃ d, (d, Tag.type name) ∈ L ∧ c.nodeType? d = some x

/-- The nodes of signatures share slots only where a class or an enum is named. Nothing is said
about other nodes. -/
structure Arranged (L : List (NodeId × Tag)) (c : Context) : Prop where
  nodup : (L.map Prod.fst).Nodup
  lt : ∀ n x, n ∈ L.map Prod.fst → c.nodeType? n = some x → x < c.types.size
  symbols : ∀ id sc, c.scope? id = some sc → ∀ s ∈ sc.symbols, s.kind = .type →
    (s.declaration, Tag.type s.name) ∈ L
  shared : ∀ m n x, m ∈ L.map Prod.fst → n ∈ L.map Prod.fst → m ≠ n → c.nodeType? m = some x →
    c.nodeType? n = some x → ∃ name, TypeSlot L c name x
  own : ∀ d name n x, (d, Tag.type name) ∈ L → n ∈ L.map Prod.fst → c.nodeType? d = some x →
    c.nodeType? n = some x → n = d ∨ (n, Tag.name name) ∈ L
  nominal : ∀ name x, TypeSlot L c name x →
    c.types.get x = .unknown ∨ (c.types.get x).nominalName? = some name

lemma mem_keys (h : (n, t) ∈ L) : n ∈ L.map Prod.fst :=
  List.mem_map_of_mem (f := Prod.fst) h

lemma Private.mem_keys (h : Private L n) : n ∈ L.map Prod.fst := by
  rcases h with h | h <;> exact Context.mem_keys h

namespace Arranged

/-- A node stands for one thing only. -/
lemma tag_unique (h : c.Arranged L) {t t' : Tag} (ht : (n, t) ∈ L) (ht' : (n, t') ∈ L) : t = t' :=
  Sema.tag_unique h.nodup ht ht'

lemma typeSlot_lt (h : c.Arranged L) (hx : TypeSlot L c name x) : x < c.types.size := by
  obtain ⟨d, hd, hdx⟩ := hx
  exact h.lt d x (Context.mem_keys hd) hdx

/-- A node that does not name a class or an enum has its slot for itself. -/
lemma private_own (h : c.Arranged L) (hn : Private L n)
    (hx : c.nodeType? n = some x) (hm : m ∈ L.map Prod.fst) (hmx : c.nodeType? m = some x) :
    m = n := by
  by_contra hne
  obtain ⟨name, d, hd, hdx⟩ := h.shared m n x hm hn.mem_keys hne hmx hx
  rcases h.own d name n x hd hn.mem_keys hdx hx with rfl | hname <;> rcases hn with hn | hn
  · cases h.tag_unique hn hd
  · cases h.tag_unique hn hd
  · cases h.tag_unique hn hname
  · cases h.tag_unique hn hname

lemma private_not_type (h : c.Arranged L) (hn : Private L n)
    (hx : c.nodeType? n = some x) (name : String) : ¬ TypeSlot L c name x := by
  rintro ⟨d, hd, hdx⟩
  obtain rfl := h.private_own hn hx (Context.mem_keys hd) hdx
  rcases hn with hn | hn <;> cases h.tag_unique hn hd

/-- The slots of two classes or enums are two slots. -/
lemma type_inj (h : c.Arranged L) {name' : String}
    (hd : (d, Tag.type name) ∈ L) (hm : (m, Tag.type name') ∈ L) (hdx : c.nodeType? d = some x)
    (hmx : c.nodeType? m = some x) : m = d := by
  rcases h.own d name m x hd (Context.mem_keys hm) hdx hmx with rfl | hname
  · rfl
  · cases h.tag_unique hm hname

/-- An annotation shares the slot of a class or an enum only if it names it. -/
lemma name_eq (h : c.Arranged L) {name' : String}
    (hn : (n, Tag.name name) ∈ L) (hx : c.nodeType? n = some x) (ht : TypeSlot L c name' x) :
    name' = name := by
  obtain ⟨d, hd, hdx⟩ := ht
  rcases h.own d name' n x hd (Context.mem_keys hn) hdx hx with rfl | hname
  · cases h.tag_unique hn hd
  · cases h.tag_unique hn hname
    rfl

/-- The declaration of a type that is found by its name. -/
lemma type_declaration (h : c.Arranged L) (hd : c.declarationOf? name .type = some d) :
    (d, Tag.type name) ∈ L := by
  obtain ⟨symbol, id, sc, hsc, hmem, hkind, rfl, rfl⟩ := exists_of_declarationOf? hd
  exact h.symbols id sc hsc symbol hmem hkind

/-- Nodes that have no types yet come on top. -/
lemma append_untyped {T : List (NodeId × Tag)} (h : c.Arranged L)
    (hnd : ((L ++ T).map Prod.fst).Nodup) (hT : ∀ n ∈ T.map Prod.fst, c.nodeType? n = none) :
    c.Arranged (L ++ T) := by
  have hkey : ∀ {n x}, n ∈ (L ++ T).map Prod.fst → c.nodeType? n = some x → n ∈ L.map Prod.fst := by
    intro n x hn hx
    rw [List.map_append, List.mem_append] at hn
    refine hn.resolve_right fun hn => ?_
    cases (hT n hn).symm.trans hx
  have htag : ∀ {n t x}, (n, t) ∈ L ++ T → c.nodeType? n = some x → (n, t) ∈ L := by
    intro n t x hn hx
    refine (List.mem_append.mp hn).resolve_right fun hn => ?_
    cases (hT n (Context.mem_keys hn)).symm.trans hx
  refine ⟨hnd, fun n x hn hx => h.lt n x (hkey hn hx) hx,
    fun id sc hsc s hs hk => List.mem_append_left _ (h.symbols id sc hsc s hs hk),
    fun m n x hm hn hne hmx hnx => ?_, fun d name n x hd hn hdx hnx => ?_, ?_⟩
  · obtain ⟨name, d, hd, hdx⟩ := h.shared m n x (hkey hm hmx) (hkey hn hnx) hne hmx hnx
    exact ⟨name, d, List.mem_append_left _ hd, hdx⟩
  · exact (h.own d name n x (htag hd hdx) (hkey hn hnx) hdx hnx).imp_right
      (List.mem_append_left _)
  · rintro name x ⟨d, hd, hdx⟩
    exact h.nominal name x ⟨d, htag hd hdx, hdx⟩

/-- Only the types change, and classes and enums stay what they are. -/
lemma of_types (h : c.Arranged L) (hscopes : c'.scopes = c.scopes)
    (hnodes : c'.nodeTypes = c.nodeTypes) (hsize : c.types.size ≤ c'.types.size)
    (hnominal : ∀ name x, TypeSlot L c name x →
      c'.types.get x = .unknown ∨ (c'.types.get x).nominalName? = some name) :
    c'.Arranged L := by
  have hnode : ∀ n, c'.nodeType? n = c.nodeType? n := fun n => by
    rw [nodeType?, hnodes]
    rfl
  have htype : ∀ name x, TypeSlot L c' name x ↔ TypeSlot L c name x := by
    intro name x
    simp only [TypeSlot, hnode]
  refine ⟨h.nodup, ?_, ?_, ?_, ?_, ?_⟩
  · intro n x hn hx
    rw [hnode] at hx
    exact (h.lt n x hn hx).trans_le hsize
  · intro id sc hsc
    rw [scope?, hscopes] at hsc
    exact h.symbols id sc hsc
  · simpa only [hnode, htype] using h.shared
  · simpa only [hnode] using h.own
  · intro name x hx
    exact hnominal name x ((htype name x).mp hx)

/-- A node gets its slot. It is a new one, or that of the class or enum that the node names. -/
lemma insert (h : c.Arranged L) (hn : c.nodeType? n = none)
    (ht : (n, t) ∈ L) (hx : x < c.types.size)
    (hslot : (∀ m ∈ L.map Prod.fst, c.nodeType? m ≠ some x) ∧ (∀ name, t = .type name →
        c.types.get x = .unknown ∨ (c.types.get x).nominalName? = some name) ∨
      ∃ name, t = .name name ∧ TypeSlot L c name x) :
    ({ c with nodeTypes := c.nodeTypes.insert n x } : Context).Arranged L := by
  have hcases : ∀ {m z}, nodeType? { c with nodeTypes := c.nodeTypes.insert n x } m = some z →
      m = n ∧ x = z ∨ m ≠ n ∧ c.nodeType? m = some z := by
    intro m z hm
    rw [c.nodeType?_insert n m x] at hm
    split at hm
    · next heq => exact .inl ⟨heq, Option.some.inj hm⟩
    · next hne => exact .inr ⟨hne, hm⟩
  have hold : ∀ {m z}, c.nodeType? m = some z →
      nodeType? { c with nodeTypes := c.nodeTypes.insert n x } m = some z := by
    intro m z hm
    rw [c.nodeType?_insert n m x, if_neg]
    · exact hm
    · rintro rfl
      rw [hn] at hm
      cases hm
  -- a slot that someone holds already is that of the class or enum that the node names
  have hother : ∀ {m}, m ∈ L.map Prod.fst → c.nodeType? m = some x →
      ∃ name, t = .name name ∧ TypeSlot L c name x := by
    intro m hm hmx
    rcases hslot with ⟨hfree, -⟩ | hshared
    · exact absurd hmx (hfree m hm)
    · exact hshared
  refine ⟨h.nodup, ?_, h.symbols, ?_, ?_, ?_⟩
  · intro m z hm hmz
    rcases hcases hmz with ⟨-, rfl⟩ | ⟨-, hmz⟩
    · exact hx
    · exact h.lt m z hm hmz
  · intro m m' z hm hm' hne hmz hmz'
    have hfound : (∃ name, TypeSlot L c name z) →
        ∃ name, TypeSlot L { c with nodeTypes := c.nodeTypes.insert n x } name z := by
      rintro ⟨name, d, hd, hdz⟩
      exact ⟨name, d, hd, hold hdz⟩
    rcases hcases hmz with ⟨rfl, rfl⟩ | ⟨-, h1⟩
    · rcases hcases hmz' with ⟨rfl, -⟩ | ⟨-, h2⟩
      · exact absurd rfl hne
      · obtain ⟨name, -, htype⟩ := hother hm' h2
        exact hfound ⟨name, htype⟩
    · rcases hcases hmz' with ⟨rfl, rfl⟩ | ⟨-, h2⟩
      · obtain ⟨name, -, htype⟩ := hother hm h1
        exact hfound ⟨name, htype⟩
      · exact hfound (h.shared m m' z hm hm' hne h1 h2)
  · intro d name m z hd hm hdz hmz
    rcases hcases hdz with ⟨rfl, rfl⟩ | ⟨-, hd1⟩
    · rcases hcases hmz with ⟨rfl, -⟩ | ⟨-, hm1⟩
      · exact .inl rfl
      · obtain ⟨name', rfl, -⟩ := hother hm hm1
        cases h.tag_unique ht hd
    · rcases hcases hmz with ⟨rfl, rfl⟩ | ⟨-, hm1⟩
      · obtain ⟨name', rfl, d', hd', hdx'⟩ := hother (mem_keys hd) hd1
        obtain rfl := h.type_inj hd hd' hd1 hdx'
        cases h.tag_unique hd hd'
        exact .inr ht
      · exact h.own d name m z hd hm hd1 hm1
  · rintro name z ⟨d, hd, hdz⟩
    rcases hcases hdz with ⟨rfl, rfl⟩ | ⟨-, hdz⟩
    · rcases hslot with ⟨-, hnew⟩ | ⟨name', rfl, -⟩
      · exact hnew name (h.tag_unique ht hd)
      · cases h.tag_unique ht hd
    · exact h.nominal name z ⟨d, hd, hdz⟩

end Arranged

end Context

end Sema
