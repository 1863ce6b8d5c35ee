import Sema.Proofs.Intact
import Sema.Proofs.Visible

/-!
Where a name is looked for, said without a bound. From the current scope the search goes outwards.
For a value, it goes on from a class to its base classes before it leaves the class: from the node
of a scope to the type of the node, to the base class in that type, and to the scope in the type of
the base class. Types may be changed at will, so this walk may lead anywhere, also back; it stops
where it comes to a scope again. Parents are older than their scopes and there are only finitely
many scopes, so both walks end, and the bounds that the search is given are never reached.
-/

namespace Sema

open Sema.Action

namespace Context

variable {c : Context} {id k : ScopeId} {kind : SymbolKind} {name : String}

/-! ### The order of the search -/

/-- The type of the node of the scope has a base class, and `k` is the scope in its type. -/
def BaseOf (c : Context) (id k : ScopeId) : Prop :=
  ∃ sc x base, c.scope? id = some sc ∧ c.nodeType? sc.node = some x ∧
    (∃ scope name fields, c.types.get x = .object scope (some base) name fields) ∧
    ∃ parent name fields, c.types.get base = .object k parent name fields

/-- The scope of a class and those of its base classes, in order. The scopes in `seen` have been
come to before. -/
inductive Inherits (c : Context) : List ScopeId → ScopeId → List ScopeId → Prop
  | again {seen : List ScopeId} {id : ScopeId} (hseen : id ∈ seen) : Inherits c seen id []
  | top {seen : List ScopeId} {id : ScopeId} (hnew : id ∉ seen) (htop : ∀ k, ¬ c.BaseOf id k) :
      Inherits c seen id [id]
  | derived {seen ids : List ScopeId} {id k : ScopeId} (hnew : id ∉ seen) (hbase : c.BaseOf id k)
      (hrest : Inherits c (id :: seen) k ids) : Inherits c seen id (id :: ids)

/-- The scopes in which a name is looked for from a scope on, in order. -/
inductive Searches (c : Context) (kind : SymbolKind) : Option ScopeId → List ScopeId → Prop
  | nowhere : Searches c kind none []
  | plain {id : ScopeId} {sc : Scope} {ids : List ScopeId} (hsc : c.scope? id = some sc)
      (hplain : ¬ (kind = .value ∧ sc.kind = .object)) (hrest : Searches c kind sc.parent ids) :
      Searches c kind (some id) (id :: ids)
  | object {id : ScopeId} {sc : Scope} {bases ids : List ScopeId} (hsc : c.scope? id = some sc)
      (hobject : kind = .value ∧ sc.kind = .object) (hbases : Inherits c [] id bases)
      (hrest : Searches c kind sc.parent ids) : Searches c kind (some id) (bases ++ ids)

lemma baseScope?_eq_some_iff : c.baseScope? id = some k ↔ c.BaseOf id k := by
  unfold baseScope?
  simp only [Option.bind_eq_bind, Option.bind_eq_some_iff]
  constructor
  · rintro ⟨sc, hsc, x, hx, base, hbase, h⟩
    refine ⟨sc, x, base, hsc, hx, ?_, ?_⟩
    · unfold TypeStore.base? Shape.base? at hbase
      split at hbase
      · next hshape => exact ⟨_, _, _, by rw [hshape, hbase]⟩
      · cases hbase
    · split at h
      · next hshape =>
        cases h
        exact ⟨_, _, _, hshape⟩
      · cases h
  · rintro ⟨sc, x, base, hsc, hx, ⟨_, _, _, hshape⟩, _, _, _, hbase⟩
    refine ⟨sc, hsc, x, hx, base, ?_, ?_⟩
    · rw [TypeStore.base?, hshape]
      rfl
    · rw [hbase]

/-! ### There is one order -/

lemma Inherits.unique {seen ids : List ScopeId} (h : c.Inherits seen id ids) :
    ∀ {ids' : List ScopeId}, c.Inherits seen id ids' → ids' = ids := by
  induction h with
  | again hseen =>
    rintro _ (_ | hnew | hnew)
    · rfl
    all_goals exact absurd hseen hnew
  | top hnew htop =>
    rintro _ (hseen | _ | ⟨-, hbase, -⟩)
    · exact absurd hseen hnew
    · rfl
    · exact absurd hbase (htop _)
  | derived hnew hbase _ ih =>
    rintro _ (hseen | ⟨-, htop⟩ | ⟨-, hbase', hrest⟩)
    · exact absurd hseen hnew
    · exact absurd hbase (htop _)
    · rw [← baseScope?_eq_some_iff] at hbase hbase'
      cases hbase.symm.trans hbase'
      rw [ih hrest]

lemma Searches.unique {start : Option ScopeId} {ids : List ScopeId}
    (h : c.Searches kind start ids) :
    ∀ {ids' : List ScopeId}, c.Searches kind start ids' → ids' = ids := by
  induction h with
  | nowhere =>
    rintro _ ⟨⟩
    rfl
  | plain hsc hplain _ ih =>
    rintro _ (_ | ⟨hsc', -, hrest⟩ | ⟨hsc', hobject, -, -⟩)
    · cases hsc.symm.trans hsc'
      rw [ih hrest]
    · cases hsc.symm.trans hsc'
      exact absurd hobject hplain
  | object hsc hobject hbases _ ih =>
    rintro _ (_ | ⟨hsc', hplain, -⟩ | ⟨hsc', -, hbases', hrest⟩)
    · cases hsc.symm.trans hsc'
      exact absurd hobject hplain
    · cases hsc.symm.trans hsc'
      rw [hbases.unique hbases', ih hrest]

/-! ### Both walks end -/

/-- The walk to the base classes, if there is fuel for all scopes that have not been come to. -/
lemma inherits_trailFrom (hc : c.WellFormed) : ∀ {fuel : Nat} {seen : List ScopeId} {id : ScopeId},
    id < c.scopes.size → (Finset.range c.scopes.size \ seen.toFinset).card < fuel →
      c.Inherits seen id (Graph.trailFrom c.baseScope? fuel seen id)
  | 0, _, _, _, hfuel => absurd hfuel (Nat.not_lt_zero _)
  | fuel + 1, seen, id, hid, hfuel => by
    unfold Graph.trailFrom
    split
    · next hseen => exact .again hseen
    · next hnew =>
      rcases hbase : c.baseScope? id with _ | k
      · refine .top hnew fun k hk => ?_
        cases hbase.symm.trans (baseScope?_eq_some_iff.mpr hk)
      · have hk := hc.baseScope?_lt (Nat.zero_lt_of_lt hid) hbase
        have hless := Graph.card_sdiff_cons (Finset.mem_range.mpr hid) hnew hfuel
        exact .derived hnew (baseScope?_eq_some_iff.mp hbase) (inherits_trailFrom hc hk hless)

lemma searchedAt_object (hkind : c.scopeKind? id = some .object) :
    c.searchedAt .value id = Graph.trail c.baseScope? c.scopes.size id := by
  rw [searchedAt, if_pos ⟨rfl, hkind⟩, baseScopes, Graph.trail, Graph.trailFrom,
    if_neg List.not_mem_nil, List.tail_cons]

/-- The walk outwards. The scopes that have been come to are younger, so none of them repeats. -/
lemma searches_trailFrom (hc : c.WellFormed) (kind : SymbolKind) :
    ∀ {fuel : Nat} {seen : List ScopeId} {id : ScopeId}, id < c.scopes.size → id < fuel →
      (∀ k ∈ seen, id < k) → c.Searches kind (some id)
        ((Graph.trailFrom c.parent? fuel seen id).flatMap (c.searchedAt kind))
  | 0, _, _, _, hfuel, _ => absurd hfuel (Nat.not_lt_zero _)
  | fuel + 1, seen, id, hid, hfuel, hseen => by
    obtain ⟨sc, hsc⟩ : ∃ sc, c.scope? id = some sc := ⟨_, Array.getElem?_eq_getElem hid⟩
    have hnew : id ∉ seen := fun hmem => (hseen id hmem).false
    have hparent : c.parent? id = sc.parent := by rw [parent?, hsc, Option.bind_some]
    -- the walk goes on from the parent, if there is one
    obtain ⟨outer, htrail, hrest⟩ : ∃ outer,
        Graph.trailFrom c.parent? (fuel + 1) seen id = id :: outer ∧
          c.Searches kind sc.parent (outer.flatMap (c.searchedAt kind)) := by
      rw [Graph.trailFrom, if_neg hnew, hparent]
      rcases hp : sc.parent with _ | parent
      · exact ⟨[], rfl, .nowhere⟩
      · have hlt := hc.parent?_lt (hparent.trans hp)
        exact ⟨_, rfl, searches_trailFrom hc kind (hlt.trans hid)
          (hlt.trans_le (Nat.le_of_lt_succ hfuel))
          (List.forall_mem_cons.mpr ⟨hlt, fun k hk => hlt.trans (hseen k hk)⟩)⟩
    rw [htrail, List.flatMap_cons]
    by_cases hobject : kind = .value ∧ sc.kind = .object
    · obtain ⟨rfl, hkind⟩ := hobject
      rw [searchedAt_object (by rw [scopeKind?, hsc, Option.map_some, hkind])]
      refine .object hsc ⟨rfl, hkind⟩ (inherits_trailFrom hc hid ?_) hrest
      simp
    · have hplain : c.searchedAt kind id = [id] := by
        rw [searchedAt, if_neg]
        rwa [scopeKind?, hsc, Option.map_some, Option.some.injEq]
      rw [hplain, List.singleton_append]
      exact .plain hsc hobject hrest

lemma searches_searched (hc : c.WellFormed) (kind : SymbolKind) :
    c.Searches kind c.current? (c.searched kind) := by
  rw [searched]
  rcases hid : c.current? with _ | id
  · exact .nowhere
  · have hlt := hc.current?_lt hid
    exact searches_trailFrom hc kind hlt (hlt.trans (Nat.lt_succ_self _)) (by simp)

/-! ### What is found -/

/-- The scope has the symbol under this name and kind. -/
def HasSymbol (c : Context) (id : ScopeId) (name : String) (kind : SymbolKind) (symbol : Symbol) :
    Prop :=
  ∃ sc, c.scope? id = some sc ∧ symbol ∈ sc.symbols ∧ symbol.name = name ∧ symbol.kind = kind

/-- There is one such symbol at most, as no scope has two of one name and kind. -/
lemma findLocal?_eq_some_iff (hc : c.WellFormed) {symbol : Symbol} :
    c.findLocal? id name kind = some symbol ↔ c.HasSymbol id name kind symbol := by
  unfold findLocal? HasSymbol Scope.find?
  rw [Option.bind_eq_some_iff]
  refine exists_congr fun sc => and_congr_right fun hsc => ?_
  have hnamed : ∀ s : Symbol, s.isNamed name kind = true ↔ s.name = name ∧ s.kind = kind :=
    fun s => by simp [Symbol.isNamed, and_comm]
  have hfind : ∀ s, sc.symbols.find? (fun s => s.isNamed name kind) = some s →
      s ∈ sc.symbols ∧ s.name = name ∧ s.kind = kind := fun s h =>
    ⟨List.mem_of_find?_eq_some h,
      (hnamed s).mp (List.find?_some (p := fun s : Symbol => s.isNamed name kind) h)⟩
  constructor
  · exact hfind symbol
  · rintro ⟨hmem, hname⟩
    rcases hfound : sc.symbols.find? fun s => s.isNamed name kind with _ | other
    · exact absurd ((hnamed symbol).mpr hname) (List.find?_eq_none.mp hfound symbol hmem)
    · obtain ⟨hmem', hother⟩ := hfind other hfound
      have hkey : other.key = symbol.key := by
        rw [Symbol.key, Symbol.key, hother.1, hother.2, hname.1, hname.2]
      rw [hfound, List.inj_on_of_nodup_map (hc.symbols id sc hsc) hmem' hmem hkey]

lemma findLocal?_eq_none_iff (hc : c.WellFormed) :
    c.findLocal? id name kind = none ↔ ∀ symbol, ¬ c.HasSymbol id name kind symbol := by
  simp only [← findLocal?_eq_some_iff hc, Option.eq_none_iff_forall_ne_some, ne_eq]

/-- **A name stands for the first symbol on the way.** In every context that operations on existing
handles lead to, the search has one order, in which all scopes exist. A symbol is found just if it
has the name and kind in a scope of that order and no scope before it has one, and none is found
just if no scope has one. -/
theorem lookup_exact (h : Steps {} c) (name : String) (kind : SymbolKind) :
    ∃ ids, c.Searches kind c.current? ids ∧ (∀ ids', c.Searches kind c.current? ids' → ids' = ids) ∧
      (∀ id ∈ ids, ∃ sc, c.scope? id = some sc) ∧
      (∀ symbol, c.lookup? name kind = some symbol ↔ ∃ before id after,
        ids = before ++ id :: after ∧
        c.HasSymbol id name kind symbol ∧
          ∀ k ∈ before, ∀ other, ¬ c.HasSymbol k name kind other) ∧
      (c.lookup? name kind = none ↔ ∀ id ∈ ids, ∀ symbol, ¬ c.HasSymbol id name kind symbol) := by
  have hc := h.wellFormed .empty
  have hsearches := searches_searched hc kind
  refine ⟨c.searched kind, hsearches, fun _ => hsearches.unique, fun id hid => ?_,
    fun symbol => ?_, ?_⟩
  · exact ⟨_, Array.getElem?_eq_getElem (hc.searched_lt kind id hid)⟩
  · rw [lookup?, List.findSome?_eq_some_iff]
    simp only [findLocal?_eq_some_iff hc, findLocal?_eq_none_iff hc]
  · rw [lookup?, List.findSome?_eq_none_iff]
    simp only [findLocal?_eq_none_iff hc]

/-- Two classes, each of which is derived from the other one. -/
def hensAndEggs : Program :=
  (StateT.run (m := Id) (do
    let x ← Draft.variableDecl "x" (some (← Draft.namedType "Int" [])) none
    let hen ← Draft.classDecl "Hen" (some (← Draft.namedType "Egg" [])) [.var x]
    let y ← Draft.variableDecl "y" (some (← Draft.namedType "Int" [])) none
    let egg ← Draft.classDecl "Egg" (some (← Draft.namedType "Hen" [])) [.var y]
    Draft.program [.object hen, .object egg] []) {}).1

/-- The second walk has found the cycle and is broken off. -/
def knot : Except Fault Unit × Analysis :=
  (Pass.runAll [.collect .fresh, .resolve .reopen]).outcome { program := hensAndEggs }

/-- Then the scope of the first class is opened again. -/
def entangled : Context :=
  ((Op.reopenScope 8 ⟨"", 1, 1, 1⟩).run.outcome knot.2.context).2

theorem lookup_exact_entangled :
    Steps {} entangled ∧ entangled.BaseOf 1 2 ∧ entangled.BaseOf 2 1 ∧
    entangled.Searches .value entangled.current? [1, 2, 0] ∧
    (∃ symbol, entangled.lookup? "y" .value = some symbol ∧ symbol.scope = 2 ∧
      ∃ before id after, [1, 2, 0] = before ++ id :: after ∧
        entangled.HasSymbol id "y" .value symbol ∧
          ∀ k ∈ before, ∀ other, ¬ entangled.HasSymbol k "y" .value other) ∧
    entangled.lookup? "z" .value = none ∧
      ∀ id ∈ [1, 2, 0], ∀ symbol, ¬ entangled.HasSymbol id "z" .value symbol := by
  have hknot : ∀ r, (Pass.runAll [.collect .fresh, .resolve .reopen]).outcome
      { program := hensAndEggs } = r → Steps {} r.2.context := by
    rintro _ rfl
    exact (Pass.ensures_runAll _ (a := { program := hensAndEggs }) .empty).state.steps
  have hsteps : Steps {} entangled :=
    (hknot knot (by rw [knot])).tail ⟨.reopenScope 8 ⟨"", 1, 1, 1⟩, trivial, rfl⟩
  have horder : entangled.searched .value = [1, 2, 0] := by decide +kernel
  have hsearches := searches_searched (hsteps.wellFormed .empty) .value
  rw [horder] at hsearches
  obtain ⟨ids, -, hunique, -, hfound, -⟩ := lookup_exact hsteps "y" .value
  obtain ⟨ids', -, hunique', -, -, hnone⟩ := lookup_exact hsteps "z" .value
  obtain rfl := hunique _ hsearches
  obtain rfl := hunique' _ hsearches
  obtain ⟨symbol, hsymbol, hscope⟩ : ∃ symbol,
      entangled.lookup? "y" .value = some symbol ∧ symbol.scope = 2 :=
    Option.map_eq_some_iff.mp (by decide +kernel)
  have hz : entangled.lookup? "z" .value = none := by decide +kernel
  exact ⟨hsteps, baseScope?_eq_some_iff.mp (by decide +kernel),
    baseScope?_eq_some_iff.mp (by decide +kernel), hsearches,
    ⟨symbol, hsymbol, hscope, (hfound symbol).mp hsymbol⟩, hz, hnone.mp hz⟩

end Context

end Sema
