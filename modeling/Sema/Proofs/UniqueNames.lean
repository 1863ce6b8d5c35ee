import Sema.Proofs.Intact
import Sema.Proofs.Lexical

/-!
A name is refused exactly where names have to be unique and another node has it already. A program
or a class lets a later name replace an earlier one. A function, an enum or a block has the names of
the declarations that the walk has been to, each with its own node, so that a name is in the way
exactly if it is repeated. From one declaration follows the first walk, which declares the
parameters of functions and the items of enums.
-/

namespace Sema

open Sema.Action Context

variable {es : List (String × NodeId)} {name : String}

/-! ### Names that have to be unique -/

mutual

/-- The blocks in a statement, at any depth. -/
def Stmt.blocks : Stmt → List Block
  | .branch _ _ yes no => yes.blocks ++ match no with
    | some other => other.blocks
    | none => []
  | .loop _ _ body => body.blocks
  | .block b => b.blocks
  | .expression .. | .var _ | .ret .. => []

def Stmt.blocksAll : List Stmt → List Block
  | [] => []
  | s :: rest => s.blocks ++ Stmt.blocksAll rest

/-- The block itself and those in it. -/
def Block.blocks : Block → List Block
  | ⟨node, statements⟩ => ⟨node, statements⟩ :: Stmt.blocksAll statements

end

/-- The names that statements add to their block. -/
def Stmt.declaredAll (ss : List Stmt) : List (String × NodeId) :=
  ss.flatMap Stmt.declared

lemma Stmt.declared_mem_nodes (t : Stmt) {e : String × NodeId} (h : e ∈ t.declared) :
    e.2 ∈ t.nodes := by
  cases t with
  | var v =>
    cases List.mem_singleton.mp h
    exact List.mem_cons_self
  | expression | ret | branch | loop | block => cases h

/-- No two variables of the block itself have one name. -/
def Block.Unrepeated (b : Block) : Prop :=
  ((Stmt.declaredAll b.statements).map Prod.fst).Nodup

/-- The nodes of enum items, under their names. -/
def EnumItem.fields (items : List EnumItem) : List (String × NodeId) :=
  items.map fun item => (item.name.name, item.id)

/-- The names that a function or an enum declares in its own scope. -/
def Decl.entries : Decl → List (String × NodeId)
  | .function f => Parameter.fields f.parameters
  | .enum e => EnumItem.fields e.items
  | .object _ | .var _ | .foreign _ => []

/-- No two names that a function or an enum declares in its own scope are the same. -/
def Decl.Unrepeated (d : Decl) : Prop :=
  (d.entries.map Prod.fst).Nodup

/-- The blocks in the body of a function. -/
def Decl.blocks : Decl → List Block
  | .function f => f.body.blocks
  | .object _ | .var _ | .enum _ | .foreign _ => []

/-- Something is wrong with the program, and it is a name that is taken only if `B` does not hold. A
walk under this condition says both what an accepted program is like, with `B` false, and why a
program is rejected. -/
def Cause.Unless (B : Prop) (cause : Cause) : Prop :=
  cause.Ordinary ∧ (cause.isRedeclared = true → ¬ B)

instance {B : Prop} : Cause.Regular (Cause.Unless B) where
  ordinary h := ⟨Cause.Regular.ordinary h, fun hname => by simp [hname] at h⟩

/-! ### Declaring a name -/

lemma lastNamed_eq_none_iff : lastNamed name es = none ↔ name ∉ es.map Prod.fst := by
  induction es with
  | nil => simp [lastNamed]
  | cons e es ih =>
    rw [lastNamed, Option.or_eq_none_iff, ih]
    by_cases h : e.1 = name
    · simp [h]
    · simp [h, Ne.symm h]

lemma mem_of_lastNamed {d : NodeId} (h : lastNamed name es = some d) : (name, d) ∈ es := by
  induction es with
  | nil => cases h
  | cons e es ih =>
    rw [lastNamed, Option.or_eq_some_iff] at h
    rcases h with h | ⟨-, h⟩
    · exact List.mem_cons_of_mem _ (ih h)
    · split at h
      · next heq =>
        cases h
        exact heq ▸ List.mem_cons_self
      · cases h

section

variable {name : String} {d : NodeId} {here es : List (String × NodeId)}

lemma nodup_fst_left (h : ((here ++ es).map Prod.fst).Nodup) : (here.map Prod.fst).Nodup := by
  rw [List.map_append] at h
  exact h.of_append_left

/-- A node that is still to come has not declared a name. -/
lemma snd_notMem (h : ((here ++ [(name, d)] ++ es).map Prod.snd).Nodup) :
    d ∉ here.map Prod.snd := by
  rw [List.map_append, List.map_append] at h
  exact fun hm => (List.nodup_append'.mp h.of_append_left).2.2 hm (by simp)

end

/-- A symbol is refused if names have to be unique and another node declares the name. -/
lemma Scope.insert?_eq_none_iff {s : Scope} {symbol : Symbol} {unique : Bool} :
    s.insert? symbol unique = none ↔ unique = true ∧
      ∃ d, s.declaration? symbol.name symbol.kind = some d ∧ d ≠ symbol.declaration := by
  unfold Scope.insert? Scope.declaration?
  rcases s.find? symbol.name symbol.kind with _ | existing
  · simp
  · by_cases h : existing.declaration = symbol.declaration <;> cases unique <;> simp [h]

namespace Context

variable {c c' : Context} {k : ScopeId} {kind : ScopeKind} {here es : List (String × NodeId)}
  {name : String} {d : NodeId} {ns : List NodeId} {E : Cause → Prop} {B : Prop}

/-- The name is in the way of the node `d` in a scope of some kind. -/
def Refuses (c : Context) (k : ScopeId) (kind : ScopeKind) (name : String) (symbolKind : SymbolKind)
    (d : NodeId) : Prop :=
  kind.allowsOverwrite = false ∧ ∃ d', c.declared? k name symbolKind = some d' ∧ d' ≠ d

/-- **Declaring a name** fails exactly if the name is in the way. -/
lemma ensures_declare_refuses (hc : c.WellFormed) (hk : c.current? = some k)
    (hkind : c.scopeKind? k = some kind) (name : String) (symbolKind : SymbolKind) (d : NodeId)
    (l : Location) :
    Ensures Leads (fun cause => cause.Ordinary ∧ c.Refuses k kind name symbolKind d)
      (Check.declare name symbolKind d l) c fun _ _ => ¬ c.Refuses k kind name symbolKind d := by
  obtain ⟨sc, hsc, rfl⟩ := Option.map_eq_some_iff.mp hkind
  have hunique : (c.currentKind?.any fun k => !k.allowsOverwrite) = !sc.kind.allowsOverwrite := by
    rw [currentKind?, hk]
    change Option.any _ (c.scopeKind? k) = _
    rw [hkind]
    rfl
  have hrefuses : c.Refuses k sc.kind name symbolKind d ↔
      sc.insert? ⟨name, symbolKind, c.currentOrRoot, d⟩ (!sc.kind.allowsOverwrite) = none := by
    rw [Scope.insert?_eq_none_iff, Refuses, declared?, view?, hsc]
    simp [Scope.declaration?, Scope.find?]
  have h := Check.ensures_declare (E := fun _ => True) hc name symbolKind d l (.inl trivial)
  have hout := Check.outcome_declare (c := c) name symbolKind d l
  rw [Check.addSymbol, outcome_bind, outcome_get] at hout
  simp only [hk, hsc, hunique, Option.bind_some] at hout
  refine ⟨h.state, fun a c' hr hrefused => ?_, fun f c' hf => ?_, h.steady⟩
  · rw [Runs, hout, hrefuses.mp hrefused] at hr
    cases hr
  · rw [hout] at hf
    split at hf
    · cases hf
    · next hnone =>
      cases hf
      exact ⟨rfl, hrefuses.mpr hnone⟩

/-- In the current scope a later name replaces an earlier one. -/
def Overwrites (c : Context) : Prop :=
  ∃ k kind, c.current? = some k ∧ c.scopeKind? k = some kind ∧ kind.allowsOverwrite = true

lemma Grows.scopeKind? {P : Shape → Prop} (h : Grows P c c') (hk : c.scopeKind? k = some kind) :
    c'.scopeKind? k = some kind := by
  obtain ⟨sc, hsc, rfl⟩ := Option.map_eq_some_iff.mp hk
  obtain ⟨sc', hsc', hkind, -⟩ := h.scope k sc hsc
  rw [Context.scopeKind?, hsc', Option.map_some, hkind]

/-- A step that keeps the scopes of the context keeps the current one. -/
lemma Overwrites.of_runs {α : Type} {x : Check α} {a : α} (h : c.Overwrites)
    (hx : Within (Grows fun _ => True) x) (hr : Runs x c a c') : c'.Overwrites := by
  have hg := hx.of_runs hr
  obtain ⟨k, kind, hk, hkind, hover⟩ := h
  refine ⟨k, kind, ?_, hg.scopeKind? hkind, hover⟩
  rw [current?, hg.stack]
  exact hk

lemma Overwrites.ensures_declare (h : c.Overwrites) (hc : c.WellFormed) (name : String)
    (symbolKind : SymbolKind) (d : NodeId) (l : Location) :
    Ensures Leads E (Check.declare name symbolKind d l) c fun _ c' => c'.Overwrites := by
  obtain ⟨k, kind, hk, hkind, hover⟩ := id h
  refine ((ensures_declare_refuses hc hk hkind name symbolKind d l).weaken
    (fun _ hrefuses => ?_) fun _ _ _ _ => trivial).runs.imp fun _ _ _ hr => ?_
  · rw [Refuses, hover] at hrefuses
    cases hrefuses.2.1
  · exact h.of_runs (Check.within_declare _ _ _ _) hr.1

lemma overwrites_openScope (c : Context) (kind : ScopeKind) (hkind : kind.allowsOverwrite = true)
    (n : NodeId) : (c.openScope kind n).2.Overwrites :=
  ⟨c.scopes.size, kind, rfl, by simp [Context.scopeKind?, scope?_openScope], hkind⟩

/-- The current scope has the values in `here`, under different names. -/
structure Registers (k : ScopeId) (kind : ScopeKind) (here : List (String × NodeId)) (c : Context) :
    Prop where
  current : c.current? = some k
  scope : ∃ parent n, c.ScopeAt k kind parent n
  names : ∀ name, c.declared? k name .value = lastNamed name here
  nodup : (here.map Prod.fst).Nodup

namespace Registers

lemma openScope (c : Context) (kind : ScopeKind) (n : NodeId) :
    (c.openScope kind n).2.Registers c.scopes.size kind [] := by
  have hview : (c.openScope kind n).2.view? c.scopes.size =
      some { id := c.scopes.size, parent := c.current?, kind, node := n } :=
    view?_openScope.trans (if_pos rfl)
  refine ⟨rfl, ⟨_, _, _, hview, rfl, rfl, rfl⟩, fun name => ?_, List.nodup_nil⟩
  rw [declared?, hview]
  rfl

lemma currentKind? (h : c.Registers k kind here) : c.currentKind? = some kind := by
  obtain ⟨parent, n, hat⟩ := h.scope
  exact Collect.currentKind?_of_scopeAt h.current hat

lemma lt (h : c.Registers k kind here) : k < c.scopes.size := by
  obtain ⟨parent, n, hat⟩ := h.scope
  exact hat.lt

/-- The scope after a step that has added names to it. -/
lemma next (h : c.Registers k kind here) (ho : Opens k ns (namesOf .value es) c c')
    (hnd : ((here ++ es).map Prod.fst).Nodup) : c'.Registers k kind (here ++ es) := by
  obtain ⟨parent, n, hat⟩ := h.scope
  refine ⟨ho.current.trans h.current, ⟨parent, n, ho.own _ _ _ hat⟩, fun name => ?_, hnd⟩
  rw [ho.names, h.names, lastNamed_append]
  simp [namesOf]

lemma same (h : c.Registers k kind here) (hs : SameScopes c c') : c'.Registers k kind here := by
  have ho : Opens k [] (namesOf .value []) c c' :=
    (Opens.of_same hs).mono (fun _ h => h) fun _ => by simp [noNames, namesOf]
  have hnext := h.next ho (by simpa using h.nodup)
  rwa [List.append_nil] at hnext

/-- **A name is refused exactly if it is repeated**, in a scope where names have to be unique and
for a node that has not declared a name there. -/
lemma ensures_declare (h : c.Registers k kind here) (hc : c.WellFormed)
    (hkind : kind.allowsOverwrite = false) (hd : d ∉ here.map Prod.snd)
    (hB : B → ((here ++ [(name, d)]).map Prod.fst).Nodup) (l : Location) :
    Ensures Leads (Cause.Unless B) (Check.declare name .value d l) c fun _ c' =>
      c'.Registers k kind (here ++ [(name, d)]) ∧ Opens k [] (namesOf .value [(name, d)]) c c' := by
  have hscope : c.scopeKind? k = some kind := by
    have hkind := h.currentKind?
    rwa [Context.currentKind?, h.current] at hkind
  have hrefuses : c.Refuses k kind name .value d ↔ name ∈ here.map Prod.fst := by
    rw [Refuses, h.names]
    constructor
    · rintro ⟨-, d', hd', -⟩
      exact List.mem_map_of_mem (f := Prod.fst) (mem_of_lastNamed hd')
    · intro hname
      rcases hlast : lastNamed name here with _ | d'
      · exact absurd hname (lastNamed_eq_none_iff.mp hlast)
      · refine ⟨hkind, d', rfl, ?_⟩
        rintro rfl
        exact hd (List.mem_map_of_mem (f := Prod.snd) (mem_of_lastNamed hlast))
  have happend : ((here ++ [(name, d)]).map Prod.fst).Nodup ↔ name ∉ here.map Prod.fst := by
    rw [List.map_append, List.map_singleton, List.nodup_append']
    simp [h.nodup]
  refine ((ensures_declare_refuses hc h.current hscope name .value d l).runs.weaken
    (fun _ hrefused => ⟨hrefused.1, fun _ hb => ?_⟩) fun _ c' _ hr => ?_)
  · exact happend.mp (hB hb) (hrefuses.mp hrefused.2)
  · have ho := opens_declare h.current hr.1
    exact ⟨h.next ho (happend.mpr (mt hrefuses.mpr hr.2)), ho⟩

end Registers

end Context

/-! ### The first walk -/

/-- What is done in a new scope. -/
lemma ScopeMode.ensures_fresh {α : Type} {E : Cause → Prop} {c : Context} {kind : ScopeKind}
    {node : Node} {body : [Access] → Check α} {Q : Prop} (hc : c.WellFormed)
    (hbody : (c.openScope kind node.id).2.WellFormed →
      Ensures (Heeds False []) E body (c.openScope kind node.id).2 fun _ _ => Q) :
    Ensures (Heeds False []) E (ScopeMode.fresh.inScope kind node body) c fun _ _ => Q := by
  refine .bracket ((ensures_enter hc (.inr (.inl rfl))).heeds False.elim).runs (fun c1 h1 hr => ?_)
    (fun _ h2 => ⟨leads_leave h2.wellFormed .fresh, False.elim⟩) fun _ _ _ hq => hq
  have hopen : c1 = (c.openScope kind node.id).2 := by
    have hr := hr.1
    unfold Runs at hr
    rw [ScopeMode.outcome_enter, if_neg (by simp), if_neg (by simp [ScopeMode.mustReopen])] at hr
    cases hr
    rfl
  subst hopen
  exact hbody h1.wellFormed

namespace Collect

variable {B : Prop} {c c' : Context} {k : ScopeId} {tolerance : Tolerance}
  {here : List (String × NodeId)}

/-- Parameters, below those in `here`. -/
lemma exact_parametersFrom (ps : List Parameter) (hc : c.WellFormed)
    (h : c.Registers k .function here) (hids : ((here ++ Parameter.fields ps).map Prod.snd).Nodup)
    (hB : B → ((here ++ Parameter.fields ps).map Prod.fst).Nodup) :
    Ensures (Heeds False []) (Cause.Unless B) (parametersFrom true tolerance ps) c fun slots c' =>
      (∀ q ∈ slots, c'.Given False [] q.2) ∧
      ((here ++ Parameter.fields ps).map Prod.fst).Nodup := by
  induction ps generalizing c here with
  | nil => exact .pure (.refl hc) ⟨by simp, by simpa [Parameter.fields] using h.nodup⟩
  | cons p rest ih =>
    have hsplit : here ++ Parameter.fields (p :: rest) =
        here ++ [(p.name.name, p.id)] ++ Parameter.fields rest := by simp [Parameter.fields]
    rw [hsplit] at hids hB ⊢
    refine ((h.ensures_declare hc rfl (snd_notMem hids) (fun hb => nodup_fst_left (hB hb))
      p.location).heeds False.elim).bind fun _ c1 h1 hf1 => ?_
    refine (TypeExpr.ensures_resolveInto h1.wellFormed False.elim False.elim).runs.bind
      fun x c2 h2 hx => ?_
    have hsame : SameScopes c1 c2 :=
      (TypeExpr.within_resolveInto _ _ _).of_runs hx.1
    refine (ih h2.wellFormed (hf1.1.same hsame) hids hB).bind
      fun slots c3 h3 hrest => .pure (.refl h3.wellFormed) ⟨?_, hrest.2⟩
    exact List.forall_mem_cons.mpr ⟨⟨h3.lt hx.2.1.1, False.elim⟩, hrest.1⟩

/-- The items of an enum, below those in `here`. -/
lemma exact_enumItems (items : List EnumItem) (hc : c.WellFormed) (h : c.Registers k .enum here)
    (hids : ((here ++ EnumItem.fields items).map Prod.snd).Nodup)
    (hB : B → ((here ++ EnumItem.fields items).map Prod.fst).Nodup) :
    Ensures (Heeds False []) (Cause.Unless B) (enumItems items) c fun slots c' =>
      (∀ y ∈ slots, c'.Given False [] y) ∧
      ((here ++ EnumItem.fields items).map Prod.fst).Nodup := by
  induction items generalizing c here with
  | nil => exact .pure (.refl hc) ⟨by simp, by simpa [EnumItem.fields] using h.nodup⟩
  | cons item rest ih =>
    have hsplit : here ++ EnumItem.fields (item :: rest) =
        here ++ [(item.name.name, item.id)] ++ EnumItem.fields rest := by simp [EnumItem.fields]
    rw [hsplit] at hids hB ⊢
    refine ((h.ensures_declare hc rfl (snd_notMem hids) (fun hb => nodup_fst_left (hB hb))
      item.location).heeds False.elim).bind fun _ c1 h1 hf1 => ?_
    refine (TypeExpr.ensures_resolveItem item h1.wellFormed False.elim).runs.bind
      fun x c2 h2 hx => ?_
    have hsame : SameScopes c1 c2 :=
      (TypeExpr.within_resolveItem _ _).of_runs hx.1
    refine (ih h2.wellFormed (hf1.1.same hsame) hids hB).bind
      fun slots c3 h3 hrest => .pure (.refl h3.wellFormed) ⟨?_, hrest.2⟩
    exact List.forall_mem_cons.mpr ⟨⟨h3.lt hx.2.1.1, False.elim⟩, hrest.1⟩

lemma exact_function (hc : c.WellFormed) (ho : c.Overwrites) {f : FunctionDecl}
    (hids : ((Decl.function f).entries.map Prod.snd).Nodup)
    (hB : B → (Decl.function f).Unrepeated) :
    Ensures (Heeds False []) (Cause.Unless B) (function .fresh f) c fun _ _ =>
      (Decl.function f).Unrepeated := by
  refine ((ho.ensures_declare hc _ _ _ _).heeds False.elim).bind fun _ c1 h1 _ => ?_
  refine ScopeMode.ensures_fresh h1.wellFormed fun hc2 => ?_
  have hregisters := Registers.openScope c1 .function f.id
  refine (Ensures.get_bind (f := fun c => parametersFrom (c.currentKind? = some .function) _ _)
    ?_).bind (Q := fun slots c' =>
      (∀ q ∈ slots, c'.Given False [] q.2) ∧ (Decl.function f).Unrepeated)
    fun ps c3 h3 ⟨hps, hnd⟩ => ?_
  · simp only [hc2.currentKind?_at, hregisters.currentKind?, decide_true]
    exact exact_parametersFrom f.parameters hc2 hregisters hids hB
  refine (ensures_resultType h3.wellFormed f.returns False.elim).bind fun r c4 h4 hr => ?_
  refine (ensures_setFunction h4.wellFormed False.elim (fun q hq => (hps q hq).heeds h4) hr.1).bind
    fun _ c5 h5 _ => ?_
  exact .pure (.refl h5.wellFormed) hnd

lemma exact_enum (hc : c.WellFormed) (ho : c.Overwrites) {e : EnumDecl}
    (hids : ((Decl.enum e).entries.map Prod.snd).Nodup) (hB : B → (Decl.enum e).Unrepeated) :
    Ensures (Heeds False []) (Cause.Unless B) (enum .fresh e) c fun _ _ =>
      (Decl.enum e).Unrepeated := by
  refine ((ho.ensures_declare hc _ _ _ _).heeds False.elim).bind fun _ c1 h1 _ => ?_
  refine ScopeMode.ensures_fresh h1.wellFormed fun hc2 => .get_bind ?_
  refine (exact_enumItems e.items hc2 (Registers.openScope c1 .enum e.id) hids hB).bind
    fun items c3 h3 ⟨hitems, hnd⟩ => ?_
  refine (ensures_setNominal
    (.enum (c1.openScope .enum e.id).2.currentOrRoot e.name.name items) hc2 h3
    False.elim rfl rfl rfl (fun y hy => (hitems y hy).1) (by simp [Shape.base?])).bind
      fun _ c4 h4 _ => ?_
  exact .pure (.refl h4.wellFormed) hnd

mutual

/-- **Collecting a declaration** ends in no name that is taken exactly if no function and no enum in
it repeats a name. -/
lemma exact_decl : ∀ (d : Decl) {c : Context}, c.WellFormed → c.Overwrites →
    (∀ e ∈ d.all, (e.entries.map Prod.snd).Nodup) → (B → ∀ e ∈ d.all, e.Unrepeated) →
      Ensures (Heeds False []) (Cause.Unless B) (decl .fresh d) c fun _ _ =>
        ∀ e ∈ d.all, e.Unrepeated
  | .object o, _, hc, ho, hids, hB => (exact_object o hc ho hids hB).within
  | .function f, _, hc, ho, hids, hB => by
    simp only [Decl.all, List.mem_singleton, forall_eq] at hids hB ⊢
    exact (exact_function hc ho hids hB).within
  | .enum e, _, hc, ho, hids, hB => by
    simp only [Decl.all, List.mem_singleton, forall_eq] at hids hB ⊢
    exact (exact_enum hc ho hids hB).within
  | .var v, _, hc, ho, _, _ => (ensures_variableDecl False.elim
      ((ho.ensures_declare hc _ _ _ _).heeds False.elim)).within.imp fun _ _ _ _ => by
    simp [Decl.all, Decl.Unrepeated, Decl.entries]
  | .foreign f, _, hc, ho, _, _ => (ensures_foreign False.elim
      ((ho.ensures_declare hc _ _ _ _).heeds False.elim)).within.imp fun _ _ _ _ => by
    simp [Decl.all, Decl.Unrepeated, Decl.entries]

lemma exact_object : ∀ (o : ClassDecl) {c : Context}, c.WellFormed → c.Overwrites →
    (∀ e ∈ (Decl.object o).all, (e.entries.map Prod.snd).Nodup) →
    (B → ∀ e ∈ (Decl.object o).all, e.Unrepeated) →
      Ensures (Heeds False []) (Cause.Unless B) (object .fresh o) c fun _ _ =>
        ∀ e ∈ (Decl.object o).all, e.Unrepeated
  | ⟨node, name, base, members⟩, c, hc, ho, hids, hB => by
    refine ((ho.ensures_declare hc _ _ _ _).heeds False.elim).bind fun _ c1 h1 _ => ?_
    refine ScopeMode.ensures_fresh h1.wellFormed fun hc2 => .get_bind ?_
    have ho2 := overwrites_openScope c1 .object rfl node.id
    refine (ensures_baseType hc2 base False.elim).runs.bind fun b c3 h3 ⟨hr3, hb⟩ => ?_
    have ho3 := ho2.of_runs (within_baseType base) hr3
    refine (ensures_setNominal
      (.object (c1.openScope .object node.id).2.currentOrRoot b name.name [])
      hc2 h3 False.elim rfl rfl rfl (by simpa [Shape.nominalHandles] using fun y hy => (hb y hy).1)
      hb).runs.bind fun s c4 h4 ⟨hr4, hs⟩ => ?_
    have ho4 := ho3.of_runs (Check.within_setShape trivial) hr4
    refine (exact_fields members h4.wellFormed ho4 hs.1
      (fun e he => hids e (List.mem_cons_of_mem _ he))
      fun hb e he => hB hb e (List.mem_cons_of_mem _ he)).imp fun _ _ _ hmembers => ?_
    exact List.forall_mem_cons.mpr ⟨List.nodup_nil, hmembers⟩

lemma exact_fields : ∀ (ds : List Decl) {s : Slot} {c : Context}, c.WellFormed → c.Overwrites →
    s < c.types.size → (∀ e ∈ Decl.allOf ds, (e.entries.map Prod.snd).Nodup) →
    (B → ∀ e ∈ Decl.allOf ds, e.Unrepeated) →
      Ensures (Heeds False []) (Cause.Unless B) (fields .fresh s ds) c fun _ _ =>
        ∀ e ∈ Decl.allOf ds, e.Unrepeated
  | [], _, _, hc, _, _, _, _ => .pure (.refl hc) (by simp [Decl.allOf])
  | d :: rest, s, c, hc, ho, hs, hids, hB => by
    obtain ⟨hids, hids'⟩ := List.forall_mem_append.mp hids
    refine (exact_decl d hc ho hids fun hb => (List.forall_mem_append.mp (hB hb)).1).runs.bind
      fun _ c1 h1 ⟨hr1, hd⟩ => ?_
    have ho1 := ho.of_runs (within_decl _ d) hr1
    refine (ensures_addField (t := .plain) h1.wellFormed (h1.lt hs) False.elim).runs.bind
      fun _ c2 h2 ⟨hr2, _⟩ => ?_
    have ho2 := ho1.of_runs (within_addField _ _) hr2
    exact (exact_fields rest h2.wellFormed ho2 (h2.lt (h1.lt hs)) hids'
      fun hb => (List.forall_mem_append.mp (hB hb)).2).imp fun _ _ _ hrest =>
      List.forall_mem_append.mpr ⟨hd, hrest⟩

end

lemma exact_decls : ∀ (ds : List Decl) {c : Context}, c.WellFormed → c.Overwrites →
    (∀ e ∈ Decl.allOf ds, (e.entries.map Prod.snd).Nodup) →
    (B → ∀ e ∈ Decl.allOf ds, e.Unrepeated) →
      Ensures (Heeds False []) (Cause.Unless B) (decls .fresh ds) c fun _ _ =>
        ∀ e ∈ Decl.allOf ds, e.Unrepeated
  | [], _, hc, _, _, _ => .pure (.refl hc) (by simp [Decl.allOf])
  | d :: rest, c, hc, ho, hids, hB => by
    obtain ⟨hids, hids'⟩ := List.forall_mem_append.mp hids
    refine (exact_decl d hc ho hids fun hb => (List.forall_mem_append.mp (hB hb)).1).runs.bind
      fun _ c1 h1 ⟨hr1, hd⟩ => ?_
    have ho1 := ho.of_runs (within_decl _ d) hr1
    exact (exact_decls rest h1.wellFormed ho1 hids'
      fun hb => (List.forall_mem_append.mp (hB hb)).2).imp fun _ _ _ hrest =>
      List.forall_mem_append.mpr ⟨hd, hrest⟩

/-- The nodes of parameters and items are nodes of their declaration. -/
lemma entries_sublist (d : Decl) : (d.entries.map Prod.snd).Sublist d.signature := by
  cases d with
  | function f =>
    refine ((?_ : List.Sublist _ _).trans (List.sublist_append_left _ _)).cons _
    simp only [Decl.entries, Parameter.fields, List.map_map]
    induction f.parameters with
    | nil => exact List.Sublist.refl _
    | cons p ps ih =>
      rw [List.flatMap_cons, List.map_cons]
      exact ((List.nil_sublist _).cons_cons p.id).append ih
  | enum e =>
    refine List.Sublist.cons _ ?_
    simp only [Decl.entries, EnumItem.fields, List.map_map]
    induction e.items with
    | nil => exact List.nil_sublist _
    | cons item items ih =>
      obtain ⟨node, name, fields⟩ := item
      exact ((List.nil_sublist _).cons_cons node.id).append ih
  | object _ | var _ | foreign _ => exact List.nil_sublist _

/-- **The first walk** ends in no name that is taken exactly if no function and no enum repeats
one. -/
lemma exact_program {p : Program} (hp : p.Numbered) (hB : B → ∀ d ∈ p.allDecls, d.Unrepeated) :
    Ensures (Heeds False []) (Cause.Unless B) (program .fresh p) {} fun _ _ =>
      ∀ d ∈ p.allDecls, d.Unrepeated := by
  refine ScopeMode.ensures_fresh .empty fun hc => ?_
  refine exact_decls p.declarations hc (overwrites_openScope _ _ rfl p.id) (fun d hd => ?_) hB
  exact ((List.nodup_flatMap.mp hp.signatures).1 d hd).sublist (entries_sublist d)

end Collect

end Sema
