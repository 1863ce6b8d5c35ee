import Mathlib.Data.Finset.Card
import Sema.Proofs.DeclaredTypes

/-!
What a name stands for, said over the tree of a program: for each place the names of the scopes
around it, innermost first, where a class is followed by its base classes. The search through the
scopes of a context comes to the same declaration, as long as the context has the scopes of the
program and each class has its base class.
-/

namespace Sema

open Sema.Action Context

/-! ### Names around a place -/

/-- The names that are visible at a place, scope by scope, innermost first. -/
abbrev Names := List (List (String × NodeId))

/-- What a name stands for: the last declaration with that name in the first scope that has one. -/
def Names.find? (env : Names) (name : String) : Option NodeId :=
  env.findSome? (lastNamed name)

lemma Names.find?_append (env env' : Names) (name : String) :
    (env ++ env').find? name = (env.find? name).or (env'.find? name) :=
  List.findSome?_append

lemma Names.find?_cons (es : List (String × NodeId)) (env : Names) (name : String) :
    Names.find? (es :: env) name = (lastNamed name es).or (env.find? name) := by
  rw [Names.find?, List.findSome?_cons]
  cases lastNamed name es <;> rfl

/-- The name of the class or enum that an annotation refers to. -/
def TypeExpr.reference? : TypeExpr → Option String
  | .named _ name arguments =>
    if TypeExpr.isReference name.name arguments then some name.name else none
  | .function .. | .record .. | .inlineEnum .. => none

namespace Program

variable {p : Program} {name : String} {o : ClassDecl}

/-- The class with a name. -/
def class? (p : Program) (name : String) : Option ClassDecl :=
  (p.allDecls.filterMap Decl.class?).find? fun o => o.name.name = name

/-- The base class of the class with a name. -/
def baseName? (p : Program) (name : String) : Option String :=
  (((p.class? name).bind (·.base)).bind TypeExpr.reference?).filter fun b => (p.class? b).isSome

/-- The variables and functions of the class with a name. -/
def members (p : Program) (name : String) : List (String × NodeId) :=
  (p.class? name).elim [] fun o => Decl.names o.members .value

/-- The members of a class, and then those of its base classes, nearest first. -/
def classNames (p : Program) (name : String) : Names :=
  (Graph.trail p.baseName? p.allDecls.length name).map p.members

lemma mem_of_class? (h : p.class? name = some o) :
    .object o ∈ p.allDecls ∧ o.name.name = name := by
  obtain ⟨d, hd, ho⟩ := List.mem_filterMap.mp (List.mem_of_find?_eq_some h)
  cases d <;> cases ho
  exact ⟨hd, by simpa using List.find?_some h⟩

lemma DistinctTypeNames.class?_eq (hp : p.DistinctTypeNames) (ho : .object o ∈ p.allDecls) :
    p.class? o.name.name = some o := by
  have hsome : (p.class? o.name.name).isSome := by
    rw [class?, List.find?_isSome]
    exact ⟨o, List.mem_filterMap.mpr ⟨_, ho, rfl⟩, by simp⟩
  obtain ⟨o', ho'⟩ := Option.isSome_iff_exists.mp hsome
  obtain ⟨hmem, hname⟩ := mem_of_class? ho'
  have hsame : Decl.object o = .object o' := hp.unique ho hmem rfl (congrArg some hname)
  cases hsame
  exact ho'

/-- A name that an enum has is not that of a class. -/
lemma DistinctTypeNames.class?_enum (hp : p.DistinctTypeNames) {e : EnumDecl}
    (he : .enum e ∈ p.allDecls) : p.class? e.name.name = none := by
  rcases h : p.class? e.name.name with _ | o
  · rfl
  · obtain ⟨hmem, hname⟩ := mem_of_class? h
    have hsame : Decl.enum e = .object o := hp.unique he hmem rfl (congrArg some hname)
    cases hsame

end Program

/-! ### Walks that correspond -/

namespace Graph

variable {α β : Type} [DecidableEq α] [DecidableEq β]

/-- A vertex that has been met leaves fewer to meet. -/
lemma card_sdiff_cons {S : Finset α} {seen : List α} {a : α} {n : Nat} (ha : a ∈ S)
    (hseen : a ∉ seen) (h : (S \ seen.toFinset).card < n + 1) :
    (S \ (a :: seen).toFinset).card < n := by
  have hmem : a ∈ S \ seen.toFinset := by simp [ha, hseen]
  have hlt : (S \ (a :: seen).toFinset).card < (S \ seen.toFinset).card := by
    refine Finset.card_lt_card ⟨fun b => ?_, fun hsub => ?_⟩
    · simp +contextual
    · simpa using hsub hmem
  omega

/-- Two walks whose steps correspond meet vertices that correspond, if both have the fuel for all
vertices that there are. -/
lemma trailFrom_forall₂ {next : α → Option α} {next' : β → Option β} {R : α → β → Prop}
    {S : Finset α} {T : Finset β}
    (hunique : ∀ a b a' b', R a b → R a' b' → (a = a' ↔ b = b'))
    (hnext : ∀ a b, R a b → Option.Rel R (next a) (next' b))
    (hmem : ∀ a b, R a b → a ∈ S ∧ b ∈ T) :
    ∀ {fuel fuel' : Nat} {seen : List α} {seen' : List β} {a : α} {b : β},
      List.Forall₂ R seen seen' → R a b →
      (S \ seen.toFinset).card < fuel → (T \ seen'.toFinset).card < fuel' →
        List.Forall₂ R (trailFrom next fuel seen a) (trailFrom next' fuel' seen' b)
  | 0, _, _, _, _, _, _, _, h, _ => absurd h (Nat.not_lt_zero _)
  | _, 0, _, _, _, _, _, _, _, h => absurd h (Nat.not_lt_zero _)
  | fuel + 1, fuel' + 1, seen, seen', a, b, hseen, hab, h, h' => by
    have hiff : a ∈ seen ↔ b ∈ seen' := by
      clear h h'
      induction hseen with
      | nil => simp
      | cons hcd _ ih => simp only [List.mem_cons, hunique _ _ _ _ hab hcd, ih]
    unfold trailFrom
    by_cases ha : a ∈ seen
    · rw [if_pos ha, if_pos (hiff.mp ha)]
      exact .nil
    · have hb : b ∉ seen' := fun hb => ha (hiff.mpr hb)
      rw [if_neg ha, if_neg hb]
      refine .cons hab ?_
      obtain ⟨haS, hbT⟩ := hmem a b hab
      rcases hna : next a with _ | a' <;> rcases hnb : next' b with _ | b'
      · exact .nil
      · have := hnext a b hab
        rw [hna, hnb] at this
        cases this
      · have := hnext a b hab
        rw [hna, hnb] at this
        cases this
      · have hrel := hnext a b hab
        rw [hna, hnb] at hrel
        cases hrel with
        | some hrel =>
          exact trailFrom_forall₂ hunique hnext hmem (.cons hab hseen) hrel
            (card_sdiff_cons haS ha h) (card_sdiff_cons hbT hb h')

end Graph

/-! ### The scopes of classes -/

namespace Context

variable {p : Program} {c c' : Context} {k : ScopeId} {env : Names} {name : String}
  {o : ClassDecl} {n : NodeId} {parent : Option ScopeId} {kind : ScopeKind}

lemma ScopeAt.parent? (h : c.ScopeAt k kind parent n) : c.parent? k = parent := by
  obtain ⟨sc, hsc, -, rfl, -⟩ := h
  obtain ⟨sc', hsc', rfl⟩ := Option.map_eq_some_iff.mp hsc
  rw [Context.parent?, hsc']
  rfl

lemma ScopeAt.scopeKind? (h : c.ScopeAt k kind parent n) : c.scopeKind? k = some kind := by
  obtain ⟨sc, hsc, rfl, -⟩ := h
  obtain ⟨sc', hsc', rfl⟩ := Option.map_eq_some_iff.mp hsc
  rw [Context.scopeKind?, hsc']
  rfl

/-- Every class has its scope with its members in it, and leads to the scope of its base class. -/
structure ClassScopes (p : Program) (c : Context) : Prop where
  home : ∀ o, .object o ∈ p.allDecls → ∃ id parent, c.scopeOf? o.id = some id ∧
    c.ScopeAt id .object parent o.id ∧
    ∀ name, c.declared? id name .value = lastNamed name (Decl.names o.members .value)
  base : ∀ name o id, p.class? name = some o → c.scopeOf? o.id = some id →
    c.baseScope? id = ((p.baseName? name).bind p.class?).bind fun b => c.scopeOf? b.id

namespace ClassScopes

variable {id : ScopeId}

/-- The scope of the class with a name. -/
def Of (p : Program) (c : Context) (id : ScopeId) (name : String) : Prop :=
  ∃ o, p.class? name = some o ∧ c.scopeOf? o.id = some id

lemma scopeAt (h : c.ClassScopes p) (ho : .object o ∈ p.allDecls) (hk : c.scopeOf? o.id = some k) :
    (∃ parent, c.ScopeAt k .object parent o.id) ∧
      ∀ name, c.declared? k name .value = lastNamed name (Decl.names o.members .value) := by
  obtain ⟨id, parent, hid, hat, hnames⟩ := h.home o ho
  obtain rfl := Option.some.inj (hid.symm.trans hk)
  exact ⟨⟨parent, hat⟩, hnames⟩

lemma unique (h : c.ClassScopes p) (hp : p.Numbered) {id' : ScopeId} {name' : String}
    (hr : Of p c id name) (hr' : Of p c id' name') : id = id' ↔ name = name' := by
  obtain ⟨o, ho, hid⟩ := hr
  obtain ⟨o', ho', hid'⟩ := hr'
  obtain ⟨hmem, hname⟩ := Program.mem_of_class? ho
  obtain ⟨hmem', hname'⟩ := Program.mem_of_class? ho'
  constructor
  · rintro rfl
    -- the scope knows its node, and the node its name
    obtain ⟨⟨_, sc, hsc, -, -, hnode⟩, -⟩ := h.scopeAt hmem hid
    obtain ⟨⟨_, sc', hsc', -, -, hnode'⟩, -⟩ := h.scopeAt hmem' hid'
    obtain rfl := Option.some.inj (hsc.symm.trans hsc')
    have htag : (o.id, Tag.type o.name.name) ∈ p.layout :=
      List.mem_flatMap.mpr ⟨_, hmem, List.mem_cons_self⟩
    have htag' : (o.id, Tag.type o'.name.name) ∈ p.layout := by
      rw [← hnode, hnode']
      exact List.mem_flatMap.mpr ⟨_, hmem', List.mem_cons_self⟩
    rw [← hname, ← hname']
    exact Tag.type.inj (tag_unique hp.layout_nodup htag htag')
  · rintro rfl
    obtain rfl := Option.some.inj (ho.symm.trans ho')
    exact Option.some.inj (hid.symm.trans hid')

/-- The step to the base class. -/
lemma next (h : c.ClassScopes p) (hr : Of p c id name) :
    Option.Rel (Of p c) (c.baseScope? id) (p.baseName? name) := by
  obtain ⟨o, ho, hid⟩ := hr
  rw [h.base name o id ho hid]
  rcases hb : p.baseName? name with _ | b
  · exact .none
  · obtain ⟨-, hsome⟩ := Option.filter_eq_some_iff.mp hb
    obtain ⟨o', ho'⟩ := Option.isSome_iff_exists.mp hsome
    obtain ⟨id', -, hid', -⟩ := h.home o' (Program.mem_of_class? ho').1
    simp only [Option.bind_some, ho', hid']
    exact .some ⟨o', ho', hid'⟩

/-- **A class and its base classes**: their scopes have the names that the program says. -/
lemma findSome?_trail (h : c.ClassScopes p) (hp : p.Numbered) (hd : p.DistinctTypeNames)
    (ho : .object o ∈ p.allDecls) (hk : c.scopeOf? o.id = some k) (name : String) :
    (Graph.trail c.baseScope? c.scopes.size k).findSome? (fun id => c.declared? id name .value) =
      (p.classNames o.name.name).find? name := by
  have hrel : List.Forall₂ (Of p c) (Graph.trail c.baseScope? c.scopes.size k)
      (Graph.trail p.baseName? p.allDecls.length o.name.name) := by
    refine Graph.trailFrom_forall₂ (S := Finset.range c.scopes.size)
      (T := (p.allDecls.filterMap Decl.typeName?).toFinset)
      (fun _ _ _ _ hr hr' => h.unique hp hr hr') (fun _ _ hr => h.next hr) ?_ .nil
      ⟨o, hd.class?_eq ho, hk⟩ ?_ ?_
    · rintro id b ⟨o', ho', hid⟩
      obtain ⟨hmem, hname⟩ := Program.mem_of_class? ho'
      obtain ⟨⟨_, hat⟩, -⟩ := h.scopeAt hmem hid
      refine ⟨Finset.mem_range.mpr hat.lt, ?_⟩
      rw [List.mem_toFinset]
      exact List.mem_filterMap.mpr ⟨_, hmem, congrArg some hname⟩
    · simp
    · have hle := (p.allDecls.filterMap Decl.typeName?).toFinset_card_le
      have hle' := List.length_filterMap_le Decl.typeName? p.allDecls
      simp only [List.toFinset_nil, Finset.sdiff_empty]
      omega
  rw [Program.classNames, Names.find?, List.findSome?_map]
  revert hrel
  generalize Graph.trail c.baseScope? c.scopes.size k = ids
  generalize Graph.trail p.baseName? p.allDecls.length o.name.name = names
  intro hrel
  induction hrel with
  | nil => rfl
  | @cons id b ids bs hb _ ih =>
    obtain ⟨o', ho', hid⟩ := hb
    obtain ⟨-, hnames⟩ := h.scopeAt (Program.mem_of_class? ho').1 hid
    simp only [List.findSome?_cons, Function.comp_apply, hnames, Program.members, ho',
      Option.elim_some, ih]

end ClassScopes

/-! ### What is visible in a scope -/

/-- Searching from the scope `k` outwards one meets the names in `env`. -/
inductive Views (p : Program) (c : Context) : ScopeId → Names → Prop
  | program {k : ScopeId} {n : NodeId} {es : List (String × NodeId)}
      (hk : c.ScopeAt k .program none n)
      (hes : ∀ name, c.declared? k name .value = lastNamed name es) : Views p c k [es]
  | object {k k' : ScopeId} {o : ClassDecl} {env : Names} (ho : .object o ∈ p.allDecls)
      (hk : c.ScopeAt k .object (some k') o.id) (hid : c.scopeOf? o.id = some k) (hlt : k' < k)
      (h : Views p c k' env) : Views p c k (p.classNames o.name.name ++ env)
  | scope {k k' : ScopeId} {kind : ScopeKind} {n : NodeId} {es : List (String × NodeId)}
      {env : Names} (hk : c.ScopeAt k kind (some k') n) (hkind : kind ≠ .object)
      (hes : ∀ name, c.declared? k name .value = lastNamed name es) (hlt : k' < k)
      (h : Views p c k' env) : Views p c k (es :: env)

namespace Views

lemma lt (h : Views p c k env) : k < c.scopes.size := by
  cases h with
  | program hk => exact hk.lt
  | object _ hk => exact hk.lt
  | scope hk => exact hk.lt

/-- What is visible stays so as long as older scopes stay what they are. -/
lemma congr (h : Views p c k env) (hview : ∀ id, id ≤ k → c'.view? id = c.view? id)
    (hscope : ∀ o, .object o ∈ p.allDecls → c'.scopeOf? o.id = c.scopeOf? o.id) :
    Views p c' k env := by
  have hat : ∀ {id kind parent n}, id ≤ k → c.ScopeAt id kind parent n →
      c'.ScopeAt id kind parent n := by
    intro id kind parent n hid h
    rwa [ScopeAt, hview id hid]
  have hdeclared : ∀ {id es}, id ≤ k →
      (∀ name, c.declared? id name .value = lastNamed name es) →
        ∀ name, c'.declared? id name .value = lastNamed name es := by
    intro id es hid h name
    rw [declared?, hview id hid]
    exact h name
  induction h with
  | program hk hes => exact .program (hat le_rfl hk) (hdeclared le_rfl hes)
  | object ho hk hid hlt _ ih =>
    refine .object ho (hat le_rfl hk) ((hscope _ ho).trans hid) hlt (ih ?_ ?_ ?_)
    · exact fun id hle => hview id (hle.trans hlt.le)
    · exact fun hle => hat (hle.trans hlt.le)
    · exact fun hle => hdeclared (hle.trans hlt.le)
  | scope hk hkind hes hlt _ ih =>
    refine .scope (hat le_rfl hk) hkind (hdeclared le_rfl hes) hlt (ih ?_ ?_ ?_)
    · exact fun id hle => hview id (hle.trans hlt.le)
    · exact fun hle => hat (hle.trans hlt.le)
    · exact fun hle => hdeclared (hle.trans hlt.le)

/-- The search for a name, as it goes outwards through ever older scopes. -/
lemma findSome?_trailFrom (h : Views p c k env) (hc : c.ClassScopes p) (hp : p.Numbered)
    (hd : p.DistinctTypeNames) (name : String) : ∀ {fuel : Nat} {seen : List ScopeId}, k < fuel →
    (∀ id ∈ seen, k < id) →
      ((Graph.trailFrom c.parent? fuel seen k).flatMap (c.searchedAt .value)).findSome?
        (fun id => c.declared? id name .value) = env.find? name := by
  induction h with
  | @program k n es hk hes =>
    intro fuel seen hfuel hseen
    obtain ⟨fuel, rfl⟩ := Nat.exists_eq_add_one_of_ne_zero (Nat.ne_zero_of_lt hfuel)
    have hnot : k ∉ seen := fun hm => Nat.lt_irrefl k (hseen k hm)
    have hsearched : c.searchedAt .value k = [k] := by simp [searchedAt, hk.scopeKind?]
    rw [Graph.trailFrom, if_neg hnot, hk.parent?]
    simp [hsearched, hes, Names.find?]
  | @object k k' o env ho hk hid hlt _ ih =>
    intro fuel seen hfuel hseen
    obtain ⟨fuel, rfl⟩ := Nat.exists_eq_add_one_of_ne_zero (Nat.ne_zero_of_lt hfuel)
    have hnot : k ∉ seen := fun hm => Nat.lt_irrefl k (hseen k hm)
    have hsearched : c.searchedAt .value k = Graph.trail c.baseScope? c.scopes.size k := by
      rw [searchedAt, if_pos ⟨rfl, hk.scopeKind?⟩, baseScopes]
      simp [Graph.trail, Graph.trailFrom]
    rw [Graph.trailFrom, if_neg hnot, hk.parent?, List.flatMap_cons, List.findSome?_append,
      Names.find?_append, hsearched, hc.findSome?_trail hp hd ho hid name]
    congr 1
    refine ih (hlt.trans_le (Nat.le_of_lt_succ hfuel)) fun id hm => ?_
    rcases List.mem_cons.mp hm with rfl | hm
    · exact hlt
    · exact hlt.trans (hseen id hm)
  | @scope k k' kind n es env hk hkind hes hlt _ ih =>
    intro fuel seen hfuel hseen
    obtain ⟨fuel, rfl⟩ := Nat.exists_eq_add_one_of_ne_zero (Nat.ne_zero_of_lt hfuel)
    have hnot : k ∉ seen := fun hm => Nat.lt_irrefl k (hseen k hm)
    have hsearched : c.searchedAt .value k = [k] := by simp [searchedAt, hk.scopeKind?, hkind]
    rw [Graph.trailFrom, if_neg hnot, hk.parent?, List.flatMap_cons, List.findSome?_append,
      Names.find?_cons, hsearched, List.findSome?_singleton, hes]
    congr 1
    refine ih (hlt.trans_le (Nat.le_of_lt_succ hfuel)) fun id hm => ?_
    rcases List.mem_cons.mp hm with rfl | hm
    · exact hlt
    · exact hlt.trans (hseen id hm)

/-- **The visible declaration** is the one that the program says. -/
lemma declarationOf? (h : Views p c k env) (hc : c.ClassScopes p) (hp : p.Numbered)
    (hd : p.DistinctTypeNames) (hk : c.current? = some k) (name : String) :
    c.declarationOf? name .value = env.find? name := by
  rw [declarationOf?_eq, searched, hk]
  exact h.findSome?_trailFrom hc hp hd name (h.lt.trans (Nat.lt_succ_self _)) (by simp)

end Views

end Context

/-! ### The scopes of a program during the second walk -/

mutual

/-- Every class in a declaration has its scope. -/
lemma Decl.Scoped.home {c : Context} {lo : ScopeId} {o : ClassDecl} :
    ∀ {d : Decl} {k : ScopeId}, d.Scoped c lo k → .object o ∈ d.all →
      ∃ k' id, c.Homed lo k' .object o.id (Decl.names o.members) id
  | .object ⟨node, name, base, members⟩, k, h, ho => by
    obtain ⟨id, hid, hall⟩ := h
    rcases List.mem_cons.mp ho with heq | ho
    · cases heq
      exact ⟨k, id, hid⟩
    · exact Decl.ScopedAll.home hall ho
  | .function _, _, _, ho | .var _, _, _, ho | .enum _, _, _, ho | .foreign _, _, _, ho => by
    simp [Decl.all] at ho

lemma Decl.ScopedAll.home {c : Context} {lo : ScopeId} {o : ClassDecl} :
    ∀ {ds : List Decl} {k : ScopeId}, Decl.ScopedAll c lo k ds → .object o ∈ Decl.allOf ds →
      ∃ k' id, c.Homed lo k' .object o.id (Decl.names o.members) id
  | [], _, _, ho => by simp [Decl.allOf] at ho
  | d :: rest, k, ⟨h, hall⟩, ho => by
    rcases List.mem_append.mp ho with ho | ho
    · exact Decl.Scoped.home h ho
    · exact Decl.ScopedAll.home hall ho

end

/-- What an annotation that has been resolved holds: a copy of the class or enum that it refers to,
and no class or enum if it does not refer to any. -/
lemma Context.Signed.reference {L : List (NodeId × Tag)} {c : Context} {type : TypeExpr}
    (h : Signed L (type.layers false) c) (hu : Unambiguous L) :
    ∃ b, c.nodeType? type.node.id = some b ∧
      (∀ name, type.reference? = some name →
        ∃ y, TypeSlot L c name y ∧ c.types.get b = c.types.get y) ∧
      (type.reference? = none → (c.types.get b).nominalName? = none) := by
  cases type with
  | named node name arguments =>
    obtain ⟨b, hb, -, hholds⟩ := h _ List.mem_cons_self
    refine ⟨b, hb, ?_⟩
    -- no node holds a name with a wrong number of arguments
    have hunheld : ¬ Layer.Holds L c node.id b (.leaf .unknown) := fun h => by cases h.2.2.2
    rcases arguments with _ | ⟨argument, _ | _⟩
    · by_cases href : TypeExpr.isReference name.name [] = true
      · rw [TypeExpr.layer, if_pos href] at hholds
        simp only [TypeExpr.reference?, href, if_true, Option.some.injEq, reduceCtorEq,
          false_imp_iff, and_true]
        rintro _ rfl
        rcases hholds with hslot | ⟨-, y, hslot, -, hstays⟩
        · exact ⟨b, hslot, rfl⟩
        · exact ⟨y, hslot, hstays.eq hu⟩
      · rw [TypeExpr.layer, if_neg href] at hholds
        simp only [TypeExpr.reference?, href, Bool.false_eq_true, if_false, reduceCtorEq,
          false_imp_iff, forall_const, true_and]
        exact hholds.1 ▸ hholds.2.1
    · by_cases hcon : TypeExpr.isConstructor name.name = true
      · rw [TypeExpr.layer, if_pos hcon] at hholds
        obtain ⟨y, -, hget⟩ := hholds
        simp [TypeExpr.reference?, TypeExpr.isReference, hcon, hget, Shape.nominalName?]
      · rw [TypeExpr.layer, if_neg hcon] at hholds
        exact absurd hholds hunheld
    · exact absurd hholds hunheld
  | function node parameters returns =>
    have hmem : (node.id, Layer.function (returns.map (·.node.id)) (TypeExpr.places parameters)) ∈
        (TypeExpr.function node parameters returns).layers false := by
      cases returns <;> exact List.mem_cons_self
    obtain ⟨b, hb, -, r, slots, -, -, hget⟩ := h _ hmem
    exact ⟨b, hb, by simp [TypeExpr.reference?], fun _ => by rw [hget]; rfl⟩
  | record node fields =>
    obtain ⟨b, hb, -, scope, slots, -, hget⟩ := h _ List.mem_cons_self
    exact ⟨b, hb, by simp [TypeExpr.reference?], fun _ => by rw [hget]; rfl⟩
  | inlineEnum node items =>
    obtain ⟨b, hb, -, scope, slots, -, hget⟩ := h _ List.mem_cons_self
    exact ⟨b, hb, by simp [TypeExpr.reference?], fun _ => by rw [hget]; rfl⟩

/-- The scope of a class. -/
def Shape.classScope? : Shape → Option ScopeId
  | .object scope _ _ _ => some scope
  | _ => none

/-- The type is no class, and goes by the name of none either. -/
def Program.Lacks (p : Program) (shape : Shape) : Prop :=
  shape.classScope? = none ∧ ∀ name, shape.nominalName? = some name → p.class? name = none

/-- The types of the classes are what their declarations say: each has its slot, and the slot of
the annotation of its base class holds the class that it names, or no class. -/
structure Context.Portrays (p : Program) (c : Context) : Prop where
  holds {o : ClassDecl} : .object o ∈ p.allDecls → ∃ x, c.HoldsType x (.object o)
  base {o : ClassDecl} {type : TypeExpr} : .object o ∈ p.allDecls → o.base = some type →
    ∃ b, c.nodeType? type.node.id = some b ∧
      ((∃ o' y, .object o' ∈ p.allDecls ∧ p.baseName? o.name.name = some o'.name.name ∧
        c.HoldsType y (.object o') ∧ c.types.get b = c.types.get y) ∨
      p.baseName? o.name.name = none ∧ p.Lacks (c.types.get b))

namespace Resolve.Outlined

variable {p : Program} {plan : Plan} {s : Resolving}

/-- The class or enum that a slot belongs to, and what the slot holds. -/
lemma holdsType (h : Outlined p plan s) (hd : p.DistinctTypeNames) {name : String} {y : Slot}
    (hy : TypeSlot p.layout s.toContext name y) :
    ∃ d ∈ p.allDecls, d.typeName? = some name ∧ s.HoldsType y d := by
  obtain ⟨n, hn, hy⟩ := hy
  obtain ⟨d, hmem, htag⟩ := List.mem_flatMap.mp hn
  obtain ⟨hname, rfl⟩ := Program.typeName?_of_tag htag
  obtain ⟨x, hx⟩ := h.heads.holdsType hd.unambiguous hmem (by rw [hname]; rfl)
  obtain rfl := Option.some.inj (hx.nodeType?.symm.trans hy)
  exact ⟨d, hmem, hname, hx⟩

/-- **Once signatures are resolved** the types of classes are what their declarations say. -/
lemma portrays (h : Outlined p plan s) (hd : p.DistinctTypeNames) : s.Portrays p where
  holds ho := h.heads.holdsType hd.unambiguous ho rfl
  base {o type} ho htype := by
    have hsigned : Signed p.layout (type.layers false) s.toContext := by
      intro l hl
      refine h.annotated l (List.mem_flatMap.mpr ⟨_, ho, ?_⟩)
      rw [Decl.annotated, htype]
      exact hl
    obtain ⟨b, hb, href, hplain⟩ := hsigned.reference hd.unambiguous
    refine ⟨b, hb, ?_⟩
    rw [Program.baseName?, hd.class?_eq ho, Option.bind_some, htype, Option.bind_some]
    rcases hname : type.reference? with _ | name
    · have hnone := hplain hname
      refine .inr ⟨rfl, ?_, fun n hn => by cases hnone.symm.trans hn⟩
      revert hnone
      cases s.types.get b <;> simp [Shape.nominalName?, Shape.classScope?]
    · obtain ⟨y, hy, hget⟩ := href name hname
      obtain ⟨d, hmem, hdname, hholds⟩ := h.holdsType hd hy
      cases d with
      | object o' =>
        cases hdname
        exact .inl ⟨o', y, hmem, by simp [Option.filter, hd.class?_eq hmem], hholds, hget⟩
      | enum e =>
        obtain ⟨_, _, -, -, -, hshape⟩ := hholds
        cases hdname
        have hnone := hd.class?_enum hmem
        refine .inr ⟨by simp [Option.filter, hnone], ?_⟩
        rw [hget, hshape]
        refine ⟨rfl, fun n hn => ?_⟩
        cases hn
        exact hnone
      | function | var | foreign => exact False.elim hholds

end Resolve.Outlined

namespace Setting

variable {G : Setting} {c c' : Context} {s s' : Resolving} {k : ScopeId} {ns : List NodeId}
  {env : Names}

/-- The base class of a class, as the state has it in which the walk begins. -/
lemma base (G : Setting) {o : ClassDecl} {type : TypeExpr} (ho : .object o ∈ G.program.allDecls)
    (htype : o.base = some type) :
    ∃ b, G.start.nodeType? type.node.id = some b ∧ (G.start.types.get b).classScope? =
      ((G.program.baseName? o.name.name).bind G.program.class?).bind
        fun o' => G.start.scopeOf? o'.id := by
  obtain ⟨b, hb, ⟨o', y, ho', hname, hholds, hget⟩ | ⟨hname, hnone, -⟩⟩ :=
    (G.starts.portrays G.distinct).base ho htype
  · obtain ⟨scope, base, fields, -, hscope, -, -, hshape⟩ := hholds
    refine ⟨b, hb, ?_⟩
    simp [hname, hget, hshape, Shape.classScope?, G.distinct.class?_eq ho', hscope]
  · exact ⟨b, hb, by rw [hname, hnone]; rfl⟩

/-- Nodes of signatures are known from the beginning. -/
lemma key (G : Setting) {d : Decl} {n : NodeId} (hd : d ∈ G.program.allDecls)
    (hn : n ∈ d.signature) : n ∈ G.groundwork.layout.map Prod.fst := by
  change n ∈ G.program.layout.map Prod.fst
  rw [Program.layout_fst]
  exact List.mem_flatMap.mpr ⟨d, hd, hn⟩

/-- The scopes of declarations are as they were when the walk began. -/
structure Stands (G : Setting) (c : Context) : Prop where
  size_le : G.start.scopes.size ≤ c.scopes.size
  view : ∀ id, id < G.start.scopes.size → c.view? id = G.start.view? id
  scopeOf : ∀ n ∈ G.program.id :: G.program.allDecls.map (·.node.id),
    c.scopeOf? n = G.start.scopeOf? n

namespace Stands

variable {o : ClassDecl}

lemma start (G : Setting) : G.Stands G.start.toContext :=
  ⟨le_rfl, fun _ _ => rfl, fun _ _ => rfl⟩

lemma object (h : G.Stands c) (ho : .object o ∈ G.program.allDecls) :
    c.scopeOf? o.id = G.start.scopeOf? o.id :=
  h.scopeOf _ (List.mem_cons_of_mem _ (List.mem_map_of_mem (f := fun d : Decl => d.node.id) ho))

lemma keeps (h : G.Stands c) (hk : KeepsScopes ns c c')
    (hns : ∀ n ∈ G.program.id :: G.program.allDecls.map (·.node.id), n ∉ ns) : G.Stands c' := by
  refine ⟨h.size_le.trans hk.size_le, fun id hid => ?_, fun n hn => ?_⟩
  · rw [hk.view id (hid.trans_le h.size_le), h.view id hid]
  · rw [hk.scopeOf n (hns n hn), h.scopeOf n hn]

lemma opens (h : G.Stands c) {es : SymbolKind → List (String × NodeId)} (ho : Opens k ns es c c')
    (hk : G.start.scopes.size ≤ k)
    (hns : ∀ n ∈ G.program.id :: G.program.allDecls.map (·.node.id), n ∉ ns) : G.Stands c' := by
  refine ⟨h.size_le.trans ho.size_le, fun id hid => ?_, fun n hn => ?_⟩
  · rw [ho.others id (hid.trans_le h.size_le) (hid.trans_le hk).ne, h.view id hid]
  · rw [ho.scopeOf n (hns n hn), h.scopeOf n hn]

lemma scopeAt (h : G.Stands c) {kind : ScopeKind} {parent : Option ScopeId} {n : NodeId}
    (hk : G.start.ScopeAt k kind parent n) : c.ScopeAt k kind parent n := by
  rwa [ScopeAt, h.view k hk.lt]

/-- Variables of the program and of classes are not demanded into the bodies of functions. -/
lemma outside (h : G.Stands c) : c.Outside G.plan := by
  have hstart := (G.starts.outdoors G.tidy G.frames).housed.outside G.tidy
  intro n v id hv hid
  obtain ⟨-, -, howner⟩ := G.starts.serves.pending n v hv
  have hmem : v.owner ∈ G.program.id :: G.program.allDecls.map (·.node.id) := by
    rcases Program.mem_owners.mp howner with howner | ⟨o, ho, howner⟩
    · rw [howner]
      exact List.mem_cons_self
    · rw [howner]
      exact List.mem_cons_of_mem _ (List.mem_map_of_mem (f := fun d : Decl => d.node.id) ho)
  have hid' := (h.scopeOf _ hmem).symm.trans hid
  -- the scope is one of those that the walk began with
  obtain ⟨kind, parent, m, hat⟩ : ∃ kind parent m,
      G.start.ScopeAt id kind parent m := by
    rcases Program.mem_owners.mp howner with howner | ⟨o, ho, howner⟩
    · rw [howner, G.starts.home] at hid'
      cases hid'
      exact ⟨_, _, _, G.starts.root⟩
    · obtain ⟨k', id', hhome⟩ := G.starts.homes.home ho
      rw [howner, hhome.scopeOf] at hid'
      cases hid'
      exact ⟨_, _, _, hhome.scope⟩
  rw [(h.scopeAt hat).scopeKind?, ← hat.scopeKind?]
  exact hstart n v id hv hid'

/-- A class leads to what is stored at the slot of its base class. -/
lemma baseScope? (h : G.Stands s.toContext) (hf : Resolving.Footing G.groundwork s)
    (ho : .object o ∈ G.program.allDecls) (hk : s.scopeOf? o.id = some k) :
    ∃ base, Layer.Base G.start.toContext (o.base.map (·.node.id)) base ∧
      s.baseScope? k = base.bind fun b => (s.types.get b).classScope? := by
  obtain ⟨_, id, hhome⟩ := G.starts.homes.home ho
  obtain rfl := Option.some.inj (hhome.scopeOf.symm.trans ((h.object ho).symm.trans hk))
  obtain ⟨x, hx⟩ := G.starts.heads.holdsType G.distinct.unambiguous ho rfl
  obtain ⟨name, hslot⟩ := hx.typeSlot fun t ht => List.mem_flatMap.mpr ⟨_, ho, ht⟩
  obtain ⟨_, base, _, hnodeType, -, hbase, -, hshape⟩ := hx
  have hget : s.types.get x = G.start.types.get x :=
    hf.type_kept trivial G.distinct.unambiguous hslot
  obtain ⟨_, hview, -, -, hnode⟩ := h.scopeAt hhome.scope
  obtain ⟨sc, hsc, rfl⟩ := Option.map_eq_some_iff.mp hview
  have hsc' : s.nodeType? sc.node = some x := by
    rw [show sc.node = o.id from hnode, hf.nodes _ (G.key ho List.mem_cons_self)]
    exact hnodeType
  refine ⟨base, hbase, ?_⟩
  simp only [Context.baseScope?, hsc, hsc', TypeStore.base?, hget, hshape, Option.bind_eq_bind,
    Option.bind_some, Shape.base?]
  rfl

/-- No variable shares the slot of the base class, so that nothing was written to it. -/
lemma base_kept {type : TypeExpr} {b : Slot} (hf : Resolving.Footing G.groundwork s)
    (ho : .object o ∈ G.program.allDecls) (htype : o.base = some type)
    (hb : G.start.nodeType? type.node.id = some b) : s.types.get b = G.start.types.get b := by
  have hnode : type.node.id ∈ (Decl.object o).signature := by
    rw [Decl.signature, htype]
    exact List.mem_cons_of_mem _ type.node_mem_nodes
  refine (hf.key_stays trivial (G.key ho hnode) (fun v hv hm => ?_) hb).eq G.distinct.unambiguous
  exact G.numbered.signatures_apart ho (Program.mem_variables.mp hv) (by simp) hnode hm

/-- **Classes keep their scopes and their base classes.** -/
lemma classScopes (h : G.Stands s.toContext) (hf : Resolving.Footing G.groundwork s) :
    s.ClassScopes G.program := by
  constructor
  · intro o ho
    obtain ⟨k', id, hhome⟩ := G.starts.homes.home ho
    have hhome' := hhome.congr (h.view id hhome.scope.lt) (h.object ho)
    exact ⟨id, some k', hhome'.scopeOf, hhome'.scope, fun name => hhome'.names name .value⟩
  · intro name o id ho hid
    obtain ⟨hmem, rfl⟩ := Program.mem_of_class? ho
    obtain ⟨base, hbase, hstep⟩ := h.baseScope? hf hmem hid
    rw [hstep]
    rcases htype : o.base with _ | type
    · rw [htype] at hbase
      cases base with
      | none => simp [Program.baseName?, ho, htype]
      | some b => exact False.elim hbase
    · rw [htype] at hbase
      obtain ⟨b, hb, hscope⟩ := G.base hmem htype
      cases base with
      | none => exact False.elim hbase
      | some b' =>
        obtain rfl := Option.some.inj (hb.symm.trans hbase)
        rw [Option.bind_some, base_kept hf hmem htype hb, hscope]
        refine Option.bind_congr fun o' ho' => ?_
        obtain ⟨_, -, ho'⟩ := Option.bind_eq_some_iff.mp ho'
        exact (h.object (Program.mem_of_class? ho').1).symm

end Stands

end Setting

end Sema
