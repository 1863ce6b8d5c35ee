import Sema.Proofs.Intact
import Sema.Proofs.Lexical

/-!
Two ways to a member of a class. After `this` or another object a member is looked for among the
fields that the type of the class lists, and then among those of its base classes; its bare name is
looked for in the scope of the class, and then in those of its base classes. A list of fields has
all variables and functions of a class, and the first one of a name counts. A scope has the foreign
functions as well, and the last one counts. So the two ways lead to the same declaration if the
nearest class that declares the name does so once, and not for a foreign function.
-/

namespace Sema

open Sema.Action Context

variable {c : Context} {es : List (String × NodeId)} {fields : List (String × Slot)}

/-! ### The first value along a walk -/

namespace Graph

variable {α β γ : Type} {next : α → Option α} {next' : β → Option β} {f : α → Option γ}
  {g : β → Option γ} {y : γ} {k : Nat} {v w : α}

/-- Along the walk from a vertex `f` has its first value after this number of steps. -/
inductive Meets (next : α → Option α) (f : α → Option γ) (y : γ) : Nat → α → Prop
  | here {v : α} (h : f v = some y) : Meets next f y 0 v
  | step {k : Nat} {v w : α} (hv : f v = none) (hw : next v = some w) (h : Meets next f y k w) :
    Meets next f y (k + 1) v

namespace Meets

lemma unique (h : Meets next f y k v) : ∀ {l : Nat}, Meets next f y l v → k = l := by
  induction h with
  | here hv =>
    rintro _ (_ | ⟨hv', -, -⟩)
    · rfl
    · cases hv.symm.trans hv'
  | step hv hw _ ih =>
    rintro _ (hv' | ⟨-, hw', h'⟩)
    · cases hv.symm.trans hv'
    · cases hw.symm.trans hw'
      rw [ih h']

/-- If some vertex of the walk has a value, there is a first one. -/
lemma exists_of_reaches (h : Relation.ReflTransGen (fun a b => next a = some b) v w)
    (hw : f w ≠ none) : ∃ y k, Meets next f y k v := by
  induction h using Relation.ReflTransGen.head_induction_on with
  | refl =>
    obtain ⟨y, hy⟩ := Option.ne_none_iff_exists'.mp hw
    exact ⟨y, 0, .here hy⟩
  | @head a b hab _ ih =>
    rcases ha : f a with _ | y
    · obtain ⟨y, k, hk⟩ := ih
      exact ⟨y, k + 1, .step ha hab hk⟩
    · exact ⟨y, 0, .here ha⟩

lemma of_findSome? [DecidableEq α] : ∀ {fuel : Nat} {seen : List α} {v : α},
    (trailFrom next fuel seen v).findSome? f = some y → ∃ k, Meets next f y k v
  | 0, _, _, h => by cases h
  | fuel + 1, seen, v, h => by
    unfold trailFrom at h
    split at h
    · cases h
    · rw [List.findSome?_cons] at h
      rcases hv : f v with _ | z
      · rw [hv] at h
        rcases hw : next v with _ | w
        · rw [hw] at h
          cases h
        · rw [hw] at h
          obtain ⟨k, hk⟩ := of_findSome? h
          exact ⟨k + 1, .step hv hw hk⟩
      · rw [hv] at h
        cases h
        exact ⟨0, .here hv⟩

/-- A trail comes to the first value. The vertices that were met before have further to go, so that
the walk has not come to one of them again. -/
lemma findSome?_trailFrom [DecidableEq α] {S : Finset α}
    (hclosed : ∀ a ∈ S, ∀ b, next a = some b → b ∈ S) :
    ∀ {fuel k : Nat} {seen : List α} {v : α}, Meets next f y k v → v ∈ S →
      (∀ u ∈ seen, ∃ j, k < j ∧ Meets next f y j u) → (S \ seen.toFinset).card < fuel →
        (trailFrom next fuel seen v).findSome? f = some y
  | 0, _, _, _, _, _, _, hfuel => absurd hfuel (Nat.not_lt_zero _)
  | fuel + 1, k, seen, v, h, hv, hseen, hfuel => by
    -- the walk would take as many steps from here as before
    have hnew : v ∉ seen := by
      intro hm
      obtain ⟨j, hlt, hj⟩ := hseen v hm
      exact hlt.ne (h.unique hj)
    unfold trailFrom
    rw [if_neg hnew, List.findSome?_cons]
    cases h with
    | here hy => rw [hy]
    | @step k _ w hnone hw h =>
      rw [hnone, hw]
      refine findSome?_trailFrom hclosed h (hclosed v hv w hw) ?_ (card_sdiff_cons hv hnew hfuel)
      have hk : k < k + 1 := Nat.lt_succ_self k
      refine List.forall_mem_cons.mpr ⟨⟨k + 1, hk, .step hnone hw h⟩, fun u hu => ?_⟩
      obtain ⟨j, hlt, hj⟩ := hseen u hu
      exact ⟨j, hk.trans hlt, hj⟩

end Meets

/-- **A trail finds the first value along the walk**, if it is long enough for all vertices. -/
theorem findSome?_trail_iff [DecidableEq α] {S : Finset α} {count : Nat}
    (hclosed : ∀ a ∈ S, ∀ b, next a = some b → b ∈ S) (hcard : S.card ≤ count) (hv : v ∈ S) :
    (trail next count v).findSome? f = some y ↔ ∃ k, Meets next f y k v := by
  refine ⟨Meets.of_findSome?, fun ⟨k, hk⟩ => hk.findSome?_trailFrom hclosed hv (by simp) ?_⟩
  simpa using Nat.lt_succ_of_le hcard

/-- The first walk goes along with the second one, and has the same values, up to the first value.
Where the second one ends, the first one may still come to a dead end without a value. -/
structure Follows (R : α → β → Prop) (next : α → Option α) (f : α → Option γ)
    (next' : β → Option β) (g : β → Option γ) : Prop where
  value : ∀ a b, R a b → f a = g b
  step : ∀ a b, R a b → g b = none → (∃ a' b', next a = some a' ∧ next' b = some b' ∧ R a' b') ∨
    next' b = none ∧ ∀ a', next a = some a' → f a' = none ∧ next a' = none

namespace Follows

variable {R : α → β → Prop} {a : α} {b : β}

lemma meets_iff (h : Follows R next f next' g) (hab : R a b) :
    (∃ k, Meets next f y k a) ↔ ∃ k, Meets next' g y k b := by
  constructor
  · rintro ⟨k, hk⟩
    refine ⟨k, ?_⟩
    induction hk generalizing b with
    | here hy => exact .here (h.value _ _ hab ▸ hy)
    | step hv hw hm ih =>
      have hnone := (h.value _ _ hab).symm.trans hv
      rcases h.step _ _ hab hnone with ⟨a', b', ha', hb', hab'⟩ | ⟨-, hdead⟩
      · cases hw.symm.trans ha'
        exact .step hnone hb' (ih hab')
      · obtain ⟨hnone, hend⟩ := hdead _ hw
        cases hm with
        | here hy => cases hnone.symm.trans hy
        | step _ hw' _ => cases hend.symm.trans hw'
  · rintro ⟨k, hk⟩
    refine ⟨k, ?_⟩
    induction hk generalizing a with
    | here hy => exact .here ((h.value _ _ hab).trans hy)
    | step hv hw _ ih =>
      rcases h.step _ _ hab hv with ⟨a', b', ha', hb', hab'⟩ | ⟨hend, -⟩
      · cases hw.symm.trans hb'
        exact .step ((h.value _ _ hab).trans hv) ha' (ih hab')
      · cases hw.symm.trans hend

/-- Both trails find the same. -/
lemma findSome?_trail [DecidableEq α] [DecidableEq β] (h : Follows R next f next' g) (hab : R a b)
    {S : Finset α} {T : Finset β} {m n : Nat} (hS : ∀ a ∈ S, ∀ b, next a = some b → b ∈ S)
    (hm : S.card ≤ m) (ha : a ∈ S) (hT : ∀ a ∈ T, ∀ b, next' a = some b → b ∈ T) (hn : T.card ≤ n)
    (hb : b ∈ T) :
    (trail next m a).findSome? f = (trail next' n b).findSome? g := by
  refine Option.ext fun y => ?_
  rw [findSome?_trail_iff hS hm ha, h.meets_iff hab, findSome?_trail_iff hT hn hb]

end Follows

end Graph

/-! ### Members of a class -/

namespace ClassDecl

variable {o : ClassDecl} {name : String}

/-- The members of a class that a name may stand for. -/
def named (o : ClassDecl) (name : String) : List Decl :=
  o.members.filter fun d => d.symbolKind = .value ∧ d.name = name

/-- The name stands for one variable or function of the class at most, and for no foreign one. -/
def Clear (o : ClassDecl) (name : String) : Prop :=
  (o.named name).length ≤ 1 ∧ ∀ d ∈ o.named name, d.isField = true

instance : Decidable (o.Clear name) :=
  inferInstanceAs (Decidable (_ ∧ _))

end ClassDecl

lemma Decl.symbolKind_of_isField {d : Decl} (h : d.isField = true) : d.symbolKind = .value := by
  cases d with
  | var | function => rfl
  | object | enum | foreign => cases h

/-- In a scope the last member of a name counts, -/
lemma Decl.lastNamed_names (name : String) (ds : List Decl) :
    lastNamed name (Decl.names ds .value) = (ds.filter fun d =>
      d.symbolKind = .value ∧ d.name = name).getLast?.map (·.node.id) := by
  induction ds with
  | nil => rfl
  | cons d ds ih =>
    rw [← Decl.names_cons, lastNamed_append, ih]
    by_cases hkind : d.symbolKind = .value <;> by_cases hname : d.name = name <;>
      simp [Decl.names, lastNamed, hkind, hname, List.getLast?_cons]

/-- and in a list of fields the first one. -/
lemma Decl.lookup_fieldNodes (name : String) (ds : List Decl) :
    (Decl.fieldNodes ds).lookup name = (ds.filter fun d =>
      d.isField ∧ d.name = name).head?.map (·.node.id) := by
  induction ds with
  | nil => rfl
  | cons d ds ih =>
    rw [← Decl.fieldNodes_append, List.lookup_append, ih]
    have hbeq : (name == d.name) = decide (d.name = name) := by
      rw [Bool.beq_comm]
      rfl
    by_cases hfield : d.isField = true <;> by_cases hname : d.name = name <;>
      simp [Decl.fieldNodes, hfield, hname, List.lookup_cons, hbeq]

namespace ClassDecl.Clear

variable {o : ClassDecl} {name : String}

lemma lookup_fieldNodes (h : o.Clear name) :
    (Decl.fieldNodes o.members).lookup name = (o.named name).head?.map (·.node.id) := by
  have hsame : (o.members.filter fun d => d.isField ∧ d.name = name) = o.named name := by
    refine List.filter_congr fun d hd => decide_eq_decide.mpr ⟨fun ⟨hf, hn⟩ => ?_, fun hn => ?_⟩
    · exact ⟨Decl.symbolKind_of_isField hf, hn⟩
    · exact ⟨h.2 d (List.mem_filter.mpr ⟨hd, decide_eq_true hn⟩), hn.2⟩
  rw [Decl.lookup_fieldNodes, hsame]

/-- If a name is declared once, it makes no difference which one counts. -/
lemma lastNamed_names (h : o.Clear name) :
    lastNamed name (Decl.names o.members .value) = (Decl.fieldNodes o.members).lookup name := by
  rw [Decl.lastNamed_names, h.lookup_fieldNodes, ← named]
  rcases hlist : o.named name with _ | ⟨d, _ | ⟨d', rest⟩⟩
  · rfl
  · rfl
  · have hlen := h.1
    rw [hlist] at hlen
    simp at hlen

end ClassDecl.Clear

/-! ### Base classes -/

namespace Program

variable {p : Program} {o o' : ClassDecl} {b b' : String} {n : NodeId} {name : String}

/-- The declaration of the first class names the second one as its base class. -/
def Extends (p : Program) (o o' : ClassDecl) : Prop :=
  .object o' ∈ p.allDecls ∧ o.base.bind TypeExpr.reference? = some o'.name.name

/-- The base class of a class that does not declare the name itself. -/
def Passes (p : Program) (name : String) (o o' : ClassDecl) : Prop :=
  o.named name = [] ∧ p.Extends o o'

/-- The nodes of the fields of the class with a name. -/
def fieldsOf (p : Program) (name : String) : List (String × NodeId) :=
  (p.class? name).elim [] fun o => Decl.fieldNodes o.members

/-- The node of the field of a name that the nearest class has, from the given one on. -/
def fieldNode? (p : Program) (o : ClassDecl) (name : String) : Option NodeId :=
  (Graph.trail p.baseName? p.allDecls.length o.name.name).findSome? fun b =>
    (p.fieldsOf b).lookup name

/-- The names of the classes and enums. -/
def typeNames (p : Program) : Finset String :=
  (p.allDecls.filterMap Decl.typeName?).toFinset

lemma mem_classes : o ∈ p.allDecls.filterMap Decl.class? ↔ .object o ∈ p.allDecls := by
  rw [List.mem_filterMap]
  constructor
  · rintro ⟨d, hd, ho⟩
    cases d <;> cases ho
    exact hd
  · exact fun ho => ⟨_, ho, rfl⟩

lemma card_typeNames (p : Program) : p.typeNames.card ≤ p.allDecls.length :=
  (List.toFinset_card_le _).trans (List.length_filterMap_le _ _)

lemma mem_typeNames (ho : .object o ∈ p.allDecls) : o.name.name ∈ p.typeNames :=
  List.mem_toFinset.mpr (List.mem_filterMap.mpr ⟨_, ho, rfl⟩)

lemma class?_of_baseName? (h : p.baseName? b = some b') : ∃ o', p.class? b' = some o' :=
  Option.isSome_iff_exists.mp (Option.filter_eq_some_iff.mp h).2

lemma baseName?_mem (h : p.baseName? b = some b') : b' ∈ p.typeNames := by
  obtain ⟨o', ho'⟩ := class?_of_baseName? h
  obtain ⟨hmem, rfl⟩ := mem_of_class? ho'
  exact mem_typeNames hmem

lemma DistinctTypeNames.baseName?_iff (hp : p.DistinctTypeNames) (ho : .object o ∈ p.allDecls) :
    p.baseName? o.name.name = some b ↔ ∃ o', p.Extends o o' ∧ o'.name.name = b := by
  rw [baseName?, hp.class?_eq ho, Option.bind_some, Option.filter_eq_some_iff]
  constructor
  · rintro ⟨href, hsome⟩
    obtain ⟨o', ho'⟩ := Option.isSome_iff_exists.mp hsome
    obtain ⟨hmem, rfl⟩ := mem_of_class? ho'
    exact ⟨o', ⟨hmem, href⟩, rfl⟩
  · rintro ⟨o', ⟨hmem, href⟩, rfl⟩
    exact ⟨href, by rw [hp.class?_eq hmem]; rfl⟩

/-- Going from name to name one comes to the base classes of a class, -/
lemma DistinctTypeNames.extends_of_reaches (hp : p.DistinctTypeNames) (ho : .object o ∈ p.allDecls)
    (h : Relation.ReflTransGen (fun b b' => p.baseName? b = some b') o.name.name b) :
    ∃ o', .object o' ∈ p.allDecls ∧ o'.name.name = b ∧ Relation.ReflTransGen p.Extends o o' := by
  induction h with
  | refl => exact ⟨o, ho, rfl, .refl⟩
  | tail _ hstep ih =>
    obtain ⟨o', ho', rfl, h⟩ := ih
    obtain ⟨o'', hext, rfl⟩ := (hp.baseName?_iff ho').mp hstep
    exact ⟨o'', hext.1, rfl, h.tail hext⟩

/-- and to all of them. -/
lemma DistinctTypeNames.reaches_of_extends (hp : p.DistinctTypeNames) (ho : .object o ∈ p.allDecls)
    (h : Relation.ReflTransGen p.Extends o o') : .object o' ∈ p.allDecls ∧
      Relation.ReflTransGen (fun b b' => p.baseName? b = some b') o.name.name o'.name.name := by
  induction h with
  | refl => exact ⟨ho, .refl⟩
  | tail _ hext ih => exact ⟨hext.1, ih.2.tail ((hp.baseName?_iff ih.1).mpr ⟨_, hext, rfl⟩)⟩

lemma DistinctTypeNames.fieldsOf (hp : p.DistinctTypeNames) (ho : .object o ∈ p.allDecls) :
    p.fieldsOf o.name.name = Decl.fieldNodes o.members := by
  rw [Program.fieldsOf, hp.class?_eq ho]
  rfl

lemma DistinctTypeNames.members (hp : p.DistinctTypeNames) (ho : .object o ∈ p.allDecls) :
    p.members o.name.name = Decl.names o.members .value := by
  rw [Program.members, hp.class?_eq ho]
  rfl

/-- If no class on the way declares a name twice, scopes and fields have it in the same place. -/
lemma DistinctTypeNames.follows (hp : p.DistinctTypeNames)
    (hclear : ∀ b, Relation.ReflTransGen (p.Passes name) o b → b.Clear name) :
    Graph.Follows (fun b b' => b = b' ∧ ∃ o', .object o' ∈ p.allDecls ∧ o'.name.name = b' ∧
        Relation.ReflTransGen (p.Passes name) o o')
      p.baseName? (fun b => lastNamed name (p.members b))
      p.baseName? (fun b => (p.fieldsOf b).lookup name) where
  value b b' := by
    rintro ⟨rfl, o', ho', rfl, hpass⟩
    rw [hp.members ho', hp.fieldsOf ho', (hclear o' hpass).lastNamed_names]
  step b b' := by
    rintro ⟨rfl, o', ho', rfl, hpass⟩ hnone
    rw [hp.fieldsOf ho', (hclear o' hpass).lookup_fieldNodes, Option.map_eq_none_iff,
      List.head?_eq_none_iff] at hnone
    -- the class does not declare the name at all, and both searches go on
    rcases hbase : p.baseName? o'.name.name with _ | b
    · exact .inr ⟨rfl, by simp⟩
    · obtain ⟨o'', hext, rfl⟩ := (hp.baseName?_iff ho').mp hbase
      exact .inl ⟨_, _, rfl, rfl, rfl, o'', hext.1, rfl, hpass.tail ⟨hnone, hext⟩⟩

/-- A class has the field of a name, be it its own one or that of a base class. -/
def HasField (p : Program) (o : ClassDecl) (name : String) (n : NodeId) : Prop :=
  ∃ b, Relation.ReflTransGen p.Extends o b ∧
    ∃ d ∈ b.members, d.isField = true ∧ d.name = name ∧ d.node.id = n

lemma DistinctTypeNames.hasField_of_fieldNode? (hp : p.DistinctTypeNames)
    (ho : .object o ∈ p.allDecls) (h : p.fieldNode? o name = some n) : p.HasField o name n := by
  obtain ⟨b, hb, hn⟩ := List.exists_of_findSome?_eq_some h
  have hreach : Relation.ReflTransGen (fun b b' => p.baseName? b = some b') o.name.name b :=
    Graph.mem_trailFrom (fun _ hx _ hy => hx.tail hy) .refl b hb
  obtain ⟨o', ho', rfl, hext⟩ := hp.extends_of_reaches ho hreach
  rw [hp.fieldsOf ho', Decl.lookup_fieldNodes] at hn
  obtain ⟨d, hd, rfl⟩ := Option.map_eq_some_iff.mp hn
  obtain ⟨hmem, hfield⟩ := List.mem_filter.mp (List.mem_of_head? hd)
  obtain ⟨hfield, hname⟩ := of_decide_eq_true hfield
  exact ⟨o', hext, d, hmem, hfield, hname, rfl⟩

/-- One of the fields of a name is found. -/
lemma DistinctTypeNames.exists_fieldNode? (hp : p.DistinctTypeNames) (ho : .object o ∈ p.allDecls)
    (h : p.HasField o name n) : ∃ n, p.fieldNode? o name = some n := by
  obtain ⟨b, hext, d, hd, hfield, hname, -⟩ := h
  obtain ⟨hb, hreach⟩ := hp.reaches_of_extends ho hext
  have hsome : (p.fieldsOf b.name.name).lookup name ≠ none := by
    rw [hp.fieldsOf hb, Decl.lookup_fieldNodes, ne_eq, Option.map_eq_none_iff,
      List.head?_eq_none_iff]
    exact List.ne_nil_of_mem (List.mem_filter.mpr ⟨hd, decide_eq_true ⟨hfield, hname⟩⟩)
  obtain ⟨m, hm⟩ := Graph.Meets.exists_of_reaches
    (f := fun b => (p.fieldsOf b).lookup name) hreach hsome
  exact ⟨m, (Graph.findSome?_trail_iff (S := p.typeNames) (fun _ _ _ h => baseName?_mem h)
    p.card_typeNames (mem_typeNames ho)).mpr hm⟩

end Program

/-! ### Fields of a class -/

lemma Layer.Fields.lookup (h : Layer.Fields c es fields) (name : String) :
    fields.lookup name = (es.lookup name).bind c.nodeType? := by
  induction h with
  | nil => rfl
  | @cons e f es fs hef _ ih =>
    obtain ⟨n, d⟩ := e
    obtain ⟨n', x⟩ := f
    obtain ⟨rfl, hslot⟩ : n = n' ∧ c.nodeType? d = some x := hef
    rw [List.lookup_cons, List.lookup_cons]
    cases name == n with
    | true => exact hslot.symm
    | false => exact ih

lemma Layer.Fields.typed {e : String × NodeId} (h : Layer.Fields c es fields) (he : e ∈ es) :
    ∃ y, c.nodeType? e.2 = some y := by
  induction h with
  | nil => cases he
  | cons hef _ ih =>
    rcases List.mem_cons.mp he with rfl | he
    · exact ⟨_, hef.2⟩
    · exact ih he

lemma Shape.of_classScope?_eq_none {shape : Shape} (h : shape.classScope? = none) :
    shape.fields = [] ∧ shape.base? = none := by
  cases shape with
  | object => cases h
  | _ => exact ⟨rfl, rfl⟩

namespace Context

variable {p : Program} {c : Context} {o : ClassDecl} {x : Slot} {name : String}

/-- The slot holds the class with a name, be it the slot of the class or of an annotation. -/
def ShowsClass (p : Program) (c : Context) (x : Slot) (name : String) : Prop :=
  ∃ o y, p.class? name = some o ∧ c.HoldsType y (.object o) ∧ c.types.get x = c.types.get y

namespace Portrays

lemma shows_class (h : c.Portrays p) (hd : p.DistinctTypeNames) (ho : .object o ∈ p.allDecls)
    (hx : c.nodeType? o.id = some x) : c.ShowsClass p x o.name.name := by
  obtain ⟨y, hy⟩ := h.holds ho
  obtain rfl := Option.some.inj (hx.symm.trans hy.nodeType?)
  exact ⟨o, x, hd.class?_eq ho, hy, rfl⟩

/-- From the slot of a class one comes to that of the annotation of its base class. -/
lemma shows_base (h : c.Portrays p) (hd : p.DistinctTypeNames) (hx : c.ShowsClass p x name) :
    (∃ b name', c.types.base? x = some b ∧ p.baseName? name = some name' ∧
      c.ShowsClass p b name') ∨
    p.baseName? name = none ∧ ∀ b, c.types.base? x = some b → p.Lacks (c.types.get b) := by
  obtain ⟨o, y, hclass, ⟨scope, base, fields, -, -, hbase, -, hshape⟩, hget⟩ := hx
  obtain ⟨ho, rfl⟩ := Program.mem_of_class? hclass
  have hnext : c.types.base? x = base := by
    rw [TypeStore.base?, hget, hshape]
    rfl
  rcases htype : o.base with _ | type
  · rw [htype] at hbase
    cases base with
    | none => exact .inr ⟨by simp [Program.baseName?, hclass, htype], by simp [hnext]⟩
    | some b => exact False.elim hbase
  rw [htype] at hbase
  cases base with
  | none => exact False.elim hbase
  | some b =>
    obtain ⟨b', hb', hcases⟩ := h.base ho htype
    obtain rfl := Option.some.inj (hb'.symm.trans hbase)
    rcases hcases with ⟨o', y', ho', hname, hholds, heq⟩ | ⟨hname, hlacks⟩
    · exact .inl ⟨b', o'.name.name, hnext, hname, o', y', hd.class?_eq ho', hholds, heq⟩
    · refine .inr ⟨hname, fun b hb => ?_⟩
      obtain rfl := Option.some.inj (hnext.symm.trans hb)
      exact hlacks

/-- The way through the slots of a class and its base classes is that of their names. -/
lemma follows (h : c.Portrays p) (hd : p.DistinctTypeNames) (field : String) :
    Graph.Follows (c.ShowsClass p) c.types.base? (fun x => (c.types.get x).fields.lookup field)
      p.baseName? fun b => ((p.fieldsOf b).lookup field).bind c.nodeType? where
  value x b hx := by
    obtain ⟨o, y, hclass, ⟨_, _, fields, -, -, -, hfields, hshape⟩, hget⟩ := hx
    rw [hget, hshape, Program.fieldsOf, hclass]
    exact hfields.lookup field
  step x b hx _ := by
    rcases h.shows_base hd hx with hstep | ⟨hname, hdead⟩
    · exact .inl hstep
    · refine .inr ⟨hname, fun y hy => ?_⟩
      obtain ⟨hfields, hbase⟩ := Shape.of_classScope?_eq_none (hdead y hy).1
      exact ⟨by rw [hfields]; rfl, hbase⟩

end Portrays

end Context

namespace Setting

variable {G : Setting} {s : Resolving} {ns : List NodeId} {o : ClassDecl} {x : Slot} {name : String}

section

variable (hs : G.Stands s.toContext) (ha : Resolving.Advances G.groundwork ns G.start s)

include hs ha

/-- A class holds what it held when the walk began. -/
lemma holdsType_of_start (ho : .object o ∈ G.program.allDecls)
    (h : G.start.HoldsType x (.object o)) :
    s.HoldsType x (.object o) ∧ s.types.get x = G.start.types.get x := by
  obtain ⟨_, hslot⟩ := h.typeSlot fun t ht => List.mem_flatMap.mpr ⟨_, ho, ht⟩
  have hkept := ha.footing.type_kept trivial G.distinct.unambiguous hslot
  exact ⟨h.mono ha.nodeType (hs.object ho) hkept, hkept⟩

/-- The types of classes stay what their declarations say. -/
lemma portrays : s.Portrays G.program where
  holds ho := by
    obtain ⟨x, hx⟩ := (G.starts.portrays G.distinct).holds ho
    exact ⟨x, (holdsType_of_start hs ha ho hx).1⟩
  base {o type} ho htype := by
    obtain ⟨b, hb, hcases⟩ := (G.starts.portrays G.distinct).base ho htype
    refine ⟨b, ha.nodeType _ _ hb, ?_⟩
    rw [Stands.base_kept ha.footing ho htype hb]
    refine hcases.imp_left fun ⟨o', y, ho', hname, hholds, heq⟩ => ?_
    obtain ⟨hholds', hsame⟩ := holdsType_of_start hs ha ho' hholds
    exact ⟨o', y, ho', hname, hholds', heq.trans hsame.symm⟩

/-- **What is found among fields**: the first one of the name in the nearest class that has one. -/
theorem findField?_eq (hc : s.closeScope.WellFormed) (ho : .object o ∈ G.program.allDecls)
    (hx : s.nodeType? o.id = some x) (field : String) : s.types.findField? x field =
      (Graph.trail G.program.baseName? G.program.allDecls.length o.name.name).findSome? fun b =>
        ((G.program.fieldsOf b).lookup field).bind s.nodeType? := by
  have hportrays := portrays hs ha
  refine (hportrays.follows G.distinct field).findSome?_trail
    (hportrays.shows_class G.distinct ho hx)
    (S := Finset.range s.types.size) (T := G.program.typeNames)
    (fun _ _ _ h => Finset.mem_range.mpr (hc.base?_lt h)) (by simp)
    (Finset.mem_range.mpr (hc.nodeTypes _ _ hx)) (fun _ _ _ h => Program.baseName?_mem h)
    G.program.card_typeNames (Program.mem_typeNames ho)

/-- **What is found in scopes**: the last member of the name in the nearest class that has one. -/
theorem findSome?_searchedAt (ho : .object o ∈ G.program.allDecls) {k : ScopeId}
    (hk : s.scopeOf? o.id = some k) (member : String) :
    ((s.searchedAt .value k).findSome? fun id =>
        s.findLocal? id member .value).map (·.declaration) =
      (Graph.trail G.program.baseName? G.program.allDecls.length o.name.name).findSome? fun b =>
        lastNamed member (G.program.members b) := by
  have hscopes := hs.classScopes ha.footing
  have htrail := hscopes.findSome?_trail G.numbered.toNumbered G.distinct ho hk member
  rw [Program.classNames, Names.find?, List.findSome?_map] at htrail
  obtain ⟨⟨_, hat⟩, -⟩ := hscopes.scopeAt ho hk
  have hsearched : s.searchedAt .value k = Graph.trail s.baseScope? s.scopes.size k := by
    simp [searchedAt, hat.scopeKind?, baseScopes, Graph.trail, Graph.trailFrom]
  rw [List.map_findSome?, hsearched]
  refine Eq.trans ?_ htrail
  congr 1
  funext id
  exact s.map_findLocal? id member .value

/-- Fields have slots. -/
lemma typed_of_mem_fieldsOf {b : String} {e : String × NodeId} (he : e ∈ G.program.fieldsOf b) :
    ∃ y, s.nodeType? e.2 = some y := by
  rw [Program.fieldsOf] at he
  rcases hclass : G.program.class? b with _ | o
  · rw [hclass] at he
    cases he
  · rw [hclass] at he
    obtain ⟨ho, -⟩ := Program.mem_of_class? hclass
    obtain ⟨_, _, _, _, -, -, -, hfields, -⟩ := (portrays hs ha).holds ho
    exact hfields.typed he

/-- The slot that is found among fields is that of the field that is found. -/
lemma findField?_of_fieldNode? (hc : s.closeScope.WellFormed) (ho : .object o ∈ G.program.allDecls)
    (hx : s.nodeType? o.id = some x) {n : NodeId} (h : G.program.fieldNode? o name = some n) :
    ∃ y, s.nodeType? n = some y ∧ s.types.findField? x name = some y := by
  rw [findField?_eq hs ha hc ho hx]
  obtain ⟨before, b, after, htrail, hn, hbefore⟩ := List.findSome?_eq_some_iff.mp h
  obtain ⟨_, _, hlist, -⟩ := List.lookup_eq_some_iff.mp hn
  have hmem : (name, n) ∈ G.program.fieldsOf b := by simp [hlist]
  obtain ⟨y, hy⟩ := typed_of_mem_fieldsOf hs ha hmem
  refine ⟨y, hy, List.findSome?_eq_some_iff.mpr ⟨before, b, after, htrail, ?_, fun b hb => ?_⟩⟩
  · rw [hn, Option.bind_some, hy]
  · rw [hbefore b hb, Option.bind_none]

end

end Setting

/-- A name that is found in a class is what the name stands for in its scope. -/
lemma Context.lookup?_of_searchedAt {k : ScopeId} {name : String} {kind : SymbolKind}
    {symbol : Symbol}
    (h : ((c.searchedAt kind k).findSome? fun id => c.findLocal? id name kind) = some symbol) :
    ({ c with stack := [k] } : Context).lookup? name kind = some symbol := by
  have hfirst : ∃ rest, c.around k = k :: rest := by
    rw [around, Graph.trail, Graph.trailFrom, if_neg List.not_mem_nil]
    exact ⟨_, rfl⟩
  obtain ⟨rest, hrest⟩ := hfirst
  have hsearched : ({ c with stack := [k] } : Context).searched kind =
      (c.around k).flatMap (c.searchedAt kind) := rfl
  rw [lookup?, hsearched, hrest, List.flatMap_cons, List.findSome?_append]
  exact Option.or_eq_some_iff.mpr (.inl h)

/-! ### Accepted programs -/

namespace Analysis

variable {p : Program} {a : Analysis} {c1 c2 : Context}

lemma Accepts.wellFormed (h : Accepts p a c1 c2) : c2.WellFormed := by
  have hfirst := Collect.ensures_program (E := fun _ => True) .empty a.program (.inr rfl)
  have hc1 := (hfirst.of_value h.collect).wellFormed
  exact ((Resolve.intact_program hc1 .reopen a.program).of_value h.resolve).wellFormed

/-- **Two ways of naming a member agree.** Let all classes and enums of an accepted program have
different names, and let the name of a field of a class, or of one of its base classes, be declared
once in the nearest of these classes that declares it, and not for a foreign function. Then the
name stands, in the scope of the class, for a field of the class or of a base class, and the type of
the class has the slot of this very field under the name. -/
theorem field_is_member (hp : p.FullyNumbered) (hd : p.DistinctTypeNames)
    (h : Analysis.standard p = .ok a) {o : ClassDecl} (ho : .object o ∈ a.program.allDecls)
    {name : String} {n : NodeId} (hfield : a.program.HasField o name n)
    (hclear : ∀ b, Relation.ReflTransGen (a.program.Passes name) o b → b.Clear name) :
    ∃ x k symbol y, a.context.nodeType? o.id = some x ∧ a.context.scopeOf? o.id = some k ∧
      ({ a.context with stack := [k] } : Context).lookup? name .value = some symbol ∧
      a.program.HasField o name symbol.declaration ∧
      a.context.nodeType? symbol.declaration = some y ∧
      a.context.types.findField? x name = some y := by
  obtain ⟨c1, c2, hacc⟩ := accepts_of_standard h
  obtain ⟨g, hg⟩ := hacc.context
  have hwf := hacc.wellFormed
  obtain ⟨G, s', hprogram, -, hdecls, rfl⟩ := hacc.setting hp hd
  rw [← hprogram] at hdecls ho hfield hclear ⊢
  have hadv := G.advances hdecls
  obtain ⟨-, hkeeps⟩ := Resolve.names_decls G.between (fun _ ho => ho) G.ahead G.starts.homes hdecls
  have hstands := (Setting.Stands.start G).keeps hkeeps G.ahead.apart
  -- the class has its slot and its scope
  obtain ⟨x, k, _, _, hx, hk, -⟩ := (Setting.portrays hstands hadv).holds ho
  -- among its fields and in its scope the same node is found
  obtain ⟨n, hn⟩ := G.distinct.exists_fieldNode? ho hfield
  have hsame := (G.distinct.follows hclear).findSome?_trail ⟨rfl, o, ho, rfl, .refl⟩
    (S := G.program.typeNames) (T := G.program.typeNames) (fun _ _ _ h => Program.baseName?_mem h)
    G.program.card_typeNames (Program.mem_typeNames ho) (fun _ _ _ h => Program.baseName?_mem h)
    G.program.card_typeNames (Program.mem_typeNames ho)
  have hfound := Setting.findSome?_searchedAt hstands hadv ho hk name
  obtain ⟨symbol, hsymbol, rfl⟩ := Option.map_eq_some_iff.mp (hfound.trans (hsame.trans hn))
  obtain ⟨y, hy, hslot⟩ := Setting.findField?_of_fieldNode? hstands hadv hwf ho hx hn
  rw [hg]
  exact ⟨x, k, symbol, y, hx, hk, Context.lookup?_of_searchedAt hsymbol,
    G.distinct.hasField_of_fieldNode? ho hn, hy, hslot⟩

/-- A method that its class inherits from the middle one of three classes. The last one has two
variables of the same name. -/
def overriding : Program :=
  (StateT.run (m := Id) (do
    let x ← Draft.variableDecl "x" (some (← Draft.namedType "Int" [])) none
    let y1 ← Draft.variableDecl "y" (some (← Draft.namedType "Int" [])) none
    let y2 ← Draft.variableDecl "y" (some (← Draft.namedType "String" [])) none
    let base ← Draft.classDecl "Base" none [.var x, .var y1, .var y2]
    let y ← Draft.functionDecl "y" [] none [← Draft.expressionStmt (← Draft.identifier "x")]
    let middle ← Draft.classDecl "Middle" (some (← Draft.namedType "Base" [])) [.function y]
    let byName ← Draft.expressionStmt (← Draft.call (← Draft.identifier "y") [])
    let byField ← Draft.expressionStmt (← Draft.call (← Draft.member (← Draft.self) "y") [])
    let m ← Draft.functionDecl "m" [] none [byName, byField]
    let leaf ← Draft.classDecl "Leaf" (some (← Draft.namedType "Middle" [])) [.function m]
    Draft.program [.object leaf, .object middle, .object base] []) {}).1

theorem field_is_member_overriding : ∃ a o n, Analysis.standard overriding = .ok a ∧
    overriding.FullyNumbered ∧ overriding.DistinctTypeNames ∧ .object o ∈ a.program.allDecls ∧
    o.name.name = "Leaf" ∧ o.named "y" = [] ∧ a.program.HasField o "y" n ∧
    (∀ b, Relation.ReflTransGen (a.program.Passes "y") o b → b.Clear "y") ∧
    ∃ x k symbol y, a.context.nodeType? o.id = some x ∧ a.context.scopeOf? o.id = some k ∧
      ({ a.context with stack := [k] } : Context).lookup? "y" .value = some symbol ∧
      a.program.HasField o "y" symbol.declaration ∧
      a.context.nodeType? symbol.declaration = some y ∧
      a.context.types.findField? x "y" = some y := by
  have hp : overriding.FullyNumbered :=
    ⟨⟨by decide +kernel, by decide +kernel⟩, by decide +kernel, by decide +kernel⟩
  have hd : (overriding.allDecls.filterMap Decl.typeName?).Nodup := by decide +kernel
  obtain ⟨a, ha, hfacts⟩ := exists_of_map_eq (p := overriding)
    (f := fun a => decide (∃ o ∈ a.program.allDecls.filterMap Decl.class?,
      o.name.name = "Leaf" ∧ o.named "y" = [] ∧ (∃ b ∈ a.program.allDecls.filterMap Decl.class?,
        o.base.bind TypeExpr.reference? = some b.name.name ∧
          ∃ d ∈ b.members, d.isField = true ∧ d.name = "y") ∧
      ∀ b ∈ a.program.allDecls.filterMap Decl.class?,
        o.base.bind TypeExpr.reference? = some b.name.name → b.Clear "y" ∧ b.named "y" ≠ []))
    (y := true) (by decide +kernel)
  obtain ⟨o, ho, hleaf, hnil, ⟨b, hb, hbase, d, hd', hfield, hname⟩, hnext⟩ :=
    of_decide_eq_true hfacts
  rw [Program.mem_classes] at ho hb
  have hhas : a.program.HasField o "y" d.node.id :=
    ⟨b, .single ⟨hb, hbase⟩, d, hd', hfield, hname, rfl⟩
  have hclear : ∀ b, Relation.ReflTransGen (a.program.Passes "y") o b → b.Clear "y" := by
    intro b h
    rcases h.cases_head with rfl | ⟨c, ⟨-, hc, href⟩, h⟩
    · simp [ClassDecl.Clear, hnil]
    obtain ⟨hclear, hnamed⟩ := hnext c (Program.mem_classes.mpr hc) href
    rcases h.cases_head with rfl | ⟨_, ⟨hstop, -⟩, -⟩
    · exact hclear
    · exact absurd hstop hnamed
  exact ⟨a, o, d.node.id, ha, hp, hd, ho, hleaf, hnil, hhas, hclear,
    field_is_member hp hd ha ho hhas hclear⟩

/-- The name of a field, in the scope of a class, and the field of that name in its type lead to
different slots. -/
def Disagrees (a : Analysis) (name : String) : Prop :=
  ∃ o n x k symbol, .object o ∈ a.program.allDecls ∧ a.program.HasField o name n ∧
    a.context.nodeType? o.id = some x ∧ a.context.scopeOf? o.id = some k ∧
    ({ a.context with stack := [k] } : Context).lookup? name .value = some symbol ∧
    a.context.types.findField? x name ≠ a.context.nodeType? symbol.declaration

/-- A run on a fixed program in which the two slots of some class can be compared. -/
lemma exists_disagrees {name : String} (h : (Analysis.standard p).toOption.map
    (fun a => decide (∃ o ∈ a.program.allDecls.filterMap Decl.class?,
      (∃ b ∈ o :: (a.program.allDecls.filterMap Decl.class?).filter fun b =>
          o.base.bind TypeExpr.reference? = some b.name.name,
        ∃ d ∈ b.members, d.isField = true ∧ d.name = name) ∧
      ∃ x ∈ a.context.nodeType? o.id, ∃ k ∈ a.context.scopeOf? o.id,
        ∃ symbol ∈ ({ a.context with stack := [k] } : Context).lookup? name .value,
          a.context.types.findField? x name ≠ a.context.nodeType? symbol.declaration)) =
      some true) : ∃ a, Analysis.standard p = .ok a ∧ a.Disagrees name := by
  obtain ⟨a, ha, hfacts⟩ := exists_of_map_eq h
  obtain ⟨o, ho, ⟨b, hb, d, hd, hfield, hname⟩, x, hx, k, hk, symbol, hsymbol, hne⟩ :=
    of_decide_eq_true hfacts
  have hext : Relation.ReflTransGen a.program.Extends o b := by
    rcases List.mem_cons.mp hb with rfl | hb
    · exact .refl
    · obtain ⟨hb, hbase⟩ := List.mem_filter.mp hb
      exact .single ⟨Program.mem_classes.mp hb, of_decide_eq_true hbase⟩
  exact ⟨a, ha, o, d.node.id, x, k, symbol, Program.mem_classes.mp ho,
    ⟨b, hext, d, hd, hfield, hname, rfl⟩, hx, hk, hsymbol, hne⟩

/-- A class with two variables of the same name. -/
def twoFields : Program :=
  (StateT.run (m := Id) (do
    let x1 ← Draft.variableDecl "x" (some (← Draft.namedType "Int" [])) none
    let x2 ← Draft.variableDecl "x" (some (← Draft.namedType "String" [])) none
    let byName ← Draft.expressionStmt (← Draft.identifier "x")
    let byField ← Draft.expressionStmt (← Draft.member (← Draft.self) "x")
    let f ← Draft.functionDecl "f" [] none [byName, byField]
    let a ← Draft.classDecl "A" none [.var x1, .var x2, .function f]
    Draft.program [.object a] []) {}).1

/-- A class with a foreign function that has the name of a variable of its base class. -/
def foreignMember : Program :=
  (StateT.run (m := Id) (do
    let x ← Draft.variableDecl "x" (some (← Draft.namedType "Int" [])) none
    let b ← Draft.classDecl "B" none [.var x]
    let x ← Draft.foreignDecl "x" [] none
    let byName ← Draft.expressionStmt (← Draft.identifier "x")
    let byField ← Draft.expressionStmt (← Draft.member (← Draft.self) "x")
    let f ← Draft.functionDecl "f" [] none [byName, byField]
    let a ← Draft.classDecl "A" (some (← Draft.namedType "B" [])) [.foreign x, .function f]
    Draft.program [.object b, .object a] []) {}).1

/-- Each condition is needed. Of two variables of one name the type of the class has the first one
and its scope the last one; a foreign function is in the scope only, and hides an inherited field;
and of two classes of one name the outer one may end with the fields of the inner one. -/
theorem members_disagree :
    (twoFields.FullyNumbered ∧ twoFields.DistinctTypeNames ∧
      ∃ a, Analysis.standard twoFields = .ok a ∧ a.Disagrees "x") ∧
    (foreignMember.FullyNumbered ∧ foreignMember.DistinctTypeNames ∧
      ∃ a, Analysis.standard foreignMember = .ok a ∧ a.Disagrees "x") ∧
    (sameNames.FullyNumbered ∧ ∃ a, Analysis.standard sameNames = .ok a ∧ a.Disagrees "x" ∧
      ∀ o, .object o ∈ a.program.allDecls → o.Clear "x") := by
  refine ⟨?_, ?_, ?_⟩
  · have hd : (twoFields.allDecls.filterMap Decl.typeName?).Nodup := by decide +kernel
    exact ⟨⟨⟨by decide +kernel, by decide +kernel⟩, by decide +kernel, by decide +kernel⟩, hd,
      exists_disagrees (by decide +kernel)⟩
  · have hd : (foreignMember.allDecls.filterMap Decl.typeName?).Nodup := by decide +kernel
    exact ⟨⟨⟨by decide +kernel, by decide +kernel⟩, by decide +kernel, by decide +kernel⟩, hd,
      exists_disagrees (by decide +kernel)⟩
  · have hrun : ∃ a, Analysis.standard sameNames = .ok a ∧ a.Disagrees "x" :=
      exists_disagrees (by decide +kernel)
    obtain ⟨a, ha, hdisagrees⟩ := hrun
    obtain ⟨a', ha', hclear⟩ := exists_of_map_eq (p := sameNames)
      (f := fun a => decide (∀ o ∈ a.program.allDecls.filterMap Decl.class?, o.Clear "x"))
      (y := true) (by decide +kernel)
    obtain rfl : a = a' := Except.ok.inj (ha.symm.trans ha')
    exact ⟨⟨⟨by decide +kernel, by decide +kernel⟩, by decide +kernel, by decide +kernel⟩, a, ha,
      hdisagrees, fun o ho => of_decide_eq_true hclear o (Program.mem_classes.mpr ho)⟩

end Analysis

end Sema
