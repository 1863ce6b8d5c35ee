import Mathlib.Data.List.Nodup
import Sema.Proofs.Growth
import Sema.Proofs.Inversion
import Sema.Proofs.Nodes

/-!
The scopes that collection leaves. Every class and every function has one, inside that of what it is
declared in. A name stands there for the last declaration with that name.
-/

namespace Sema

open Sema.Action

/-! ### Names in a scope -/

/-- The last declaration with a name. -/
def lastNamed (name : String) : List (String × NodeId) → Option NodeId
  | [] => none
  | (n, d) :: rest => (lastNamed name rest).or (if n = name then some d else none)

lemma lastNamed_append (name : String) (es es' : List (String × NodeId)) :
    lastNamed name (es ++ es') = (lastNamed name es').or (lastNamed name es) := by
  induction es with
  | nil => simp [lastNamed]
  | cons e es ih => rw [List.cons_append, lastNamed, ih, lastNamed, Option.or_assoc]

namespace Scope

def declaration? (s : Scope) (name : String) (kind : SymbolKind) : Option NodeId :=
  (s.find? name kind).map (·.declaration)

variable {name : String} {kind : SymbolKind} {symbol : Symbol}

lemma find?_replaceSymbol : ∀ {symbols : List Symbol},
    (symbols.find? fun s => s.isNamed symbol.name symbol.kind).isSome →
      (replaceSymbol symbol symbols).find? (fun s => s.isNamed name kind) =
        if symbol.isNamed name kind then some symbol
        else symbols.find? fun s => s.isNamed name kind
  | [], h => by simp at h
  | s :: rest, h => by
    by_cases hs : s.isNamed symbol.name symbol.kind = true
    · -- the symbol that goes has the name of the one that comes
      have hsame : s.isNamed name kind = symbol.isNamed name kind := by
        obtain ⟨hk, hn⟩ : s.kind = symbol.kind ∧ s.name = symbol.name := by
          simpa [Symbol.isNamed] using hs
        simp [Symbol.isNamed, hk, hn]
      rw [replaceSymbol, if_pos hs, List.find?_cons, List.find?_cons, hsame]
      cases symbol.isNamed name kind <;> rfl
    · have hrest : (rest.find? fun s => s.isNamed symbol.name symbol.kind).isSome := by
        simpa [List.find?_cons, hs] using h
      rw [replaceSymbol, if_neg hs, List.find?_cons, List.find?_cons, find?_replaceSymbol hrest]
      by_cases hn : symbol.isNamed name kind = true
      · have : s.isNamed name kind = false := by
          obtain ⟨rfl, rfl⟩ : symbol.kind = kind ∧ symbol.name = name := by
            simpa [Symbol.isNamed] using hn
          simpa using hs
        rw [this]
      · cases s.isNamed name kind <;> simp [hn]

/-- A symbol that was added is the one of its name. -/
lemma declaration?_insert? {s s' : Scope} {unique : Bool}
    (h : s.insert? symbol unique = some s') :
    s'.declaration? name kind =
      if symbol.isNamed name kind then some symbol.declaration else s.declaration? name kind := by
  have hsame : symbol.isNamed name kind = true → symbol.kind = kind ∧ symbol.name = name := by
    simp [Symbol.isNamed]
  unfold insert? at h
  unfold declaration? find?
  split at h
  · next hnone =>
    cases h
    simp only [List.find?_append, List.find?_singleton]
    split
    · next hn =>
      obtain ⟨rfl, rfl⟩ := hsame hn
      rw [show s.symbols.find? _ = none from hnone]
      rfl
    · simp
  · next existing hsome =>
    split at h
    · next heq =>
      cases h
      split
      · next hn =>
        obtain ⟨rfl, rfl⟩ := hsame hn
        rw [show s.symbols.find? _ = some existing from hsome, ← heq]
        rfl
      · rfl
    · split at h
      · cases h
      · cases h
        have hsome' : (s.symbols.find? fun t => t.isNamed symbol.name symbol.kind).isSome := by
          rw [show s.symbols.find? _ = some existing from hsome]
          rfl
        simp only [find?_replaceSymbol hsome']
        split <;> rfl

end Scope

namespace Context

variable {c c1 c' : Context} {id k : ScopeId} {n : NodeId} {name : String} {kind : SymbolKind}
  {ns : List NodeId}

/-- A scope, without the mark that a function returns. -/
def view? (c : Context) (id : ScopeId) : Option Scope :=
  (c.scope? id).map fun sc => { sc with returns := false }

/-- The declaration that a name stands for in a scope. -/
def declared? (c : Context) (id : ScopeId) (name : String) (kind : SymbolKind) : Option NodeId :=
  (c.view? id).bind fun sc => sc.declaration? name kind

lemma map_findLocal? (c : Context) (id : ScopeId) (name : String) (kind : SymbolKind) :
    (c.findLocal? id name kind).map (·.declaration) = c.declared? id name kind := by
  cases h : c.scope? id <;> simp [findLocal?, declared?, view?, Scope.declaration?, Scope.find?, h]

/-- The visible declaration is that of the first scope that has one. -/
lemma declarationOf?_eq (c : Context) (name : String) (kind : SymbolKind) :
    c.declarationOf? name kind = (c.searched kind).findSome? fun id =>
      c.declared? id name kind := by
  rw [declarationOf?, lookup?, List.map_findSome?]
  congr 1
  funext id
  exact c.map_findLocal? id name kind

/-- The scope was opened for a node, in another scope. -/
def ScopeAt (c : Context) (id : ScopeId) (kind : ScopeKind) (parent : Option ScopeId)
    (n : NodeId) : Prop :=
  ∃ sc, c.view? id = some sc ∧ sc.kind = kind ∧ sc.parent = parent ∧ sc.node = n

/-- Nothing is done to scopes. -/
structure SameScopes (c c' : Context) : Prop where
  scopes : c'.scopes = c.scopes
  stack : c'.stack = c.stack
  nodeScopes : c'.nodeScopes = c.nodeScopes

lemma SameScopes.trans (h1 : SameScopes c c1) (h2 : SameScopes c1 c') : SameScopes c c' :=
  ⟨h2.scopes.trans h1.scopes, h2.stack.trans h1.stack, h2.nodeScopes.trans h1.nodeScopes⟩

instance : Std.Refl SameScopes := ⟨fun _ => ⟨rfl, rfl, rfl⟩⟩

instance : IsTrans Context SameScopes := ⟨fun _ _ _ => SameScopes.trans⟩

instance : Retypes (fun _ => True) SameScopes where
  plain _ := trivial
  alloc _ := ⟨rfl, rfl, rfl⟩
  copy _ := ⟨rfl, rfl, rfl⟩
  assign _ _ := ⟨rfl, rfl, rfl⟩
  slotOf n := by unfold slotOf; split <;> exact ⟨rfl, rfl, rfl⟩
  bind n _ := by unfold bind; split <;> exact ⟨rfl, rfl, rfl⟩
  setShape _ := by unfold setShape; split <;> exact ⟨rfl, rfl, rfl⟩

/-! ### What a step does to scopes -/

/-- What became of the scopes of `c` in a step inside the scope `k`. That scope got the names in
`es`, older ones are as they were, and only the nodes in `ns` may have got a new scope. -/
structure Opens (k : ScopeId) (ns : List NodeId) (es : SymbolKind → List (String × NodeId))
    (c c' : Context) : Prop where
  stack : c'.stack = c.stack
  size_le : c.scopes.size ≤ c'.scopes.size
  others : ∀ id, id < c.scopes.size → id ≠ k → c'.view? id = c.view? id
  own : ∀ kind parent n, c.ScopeAt k kind parent n → c'.ScopeAt k kind parent n
  names : ∀ name kind, c'.declared? k name kind =
    (lastNamed name (es kind)).or (c.declared? k name kind)
  scopeOf : ∀ n, n ∉ ns → c'.scopeOf? n = c.scopeOf? n

/-- No names. -/
def noNames (_ : SymbolKind) : List (String × NodeId) := []

/-- Names of one kind. -/
def namesOf (kind : SymbolKind) (es : List (String × NodeId)) (k : SymbolKind) :
    List (String × NodeId) :=
  if k = kind then es else []

/-- A step leaves the scopes of `c` and the names in them, and opens new ones for the nodes in `ns`
at most. -/
structure KeepsScopes (ns : List NodeId) (c c' : Context) : Prop where
  stack : c'.stack = c.stack
  size_le : c.scopes.size ≤ c'.scopes.size
  view : ∀ id, id < c.scopes.size → c'.view? id = c.view? id
  scopeOf : ∀ n, n ∉ ns → c'.scopeOf? n = c.scopeOf? n

namespace KeepsScopes

variable {ns ms : List NodeId}

lemma of_same (h : SameScopes c c') : KeepsScopes ns c c' := by
  refine ⟨h.stack, by rw [h.scopes], fun id _ => ?_, fun n _ => ?_⟩
  · rw [view?, view?, scope?, scope?, h.scopes]
  · rw [scopeOf?, h.nodeScopes]
    rfl

lemma trans (h1 : KeepsScopes ns c c1) (h2 : KeepsScopes ms c1 c') :
    KeepsScopes (ns ++ ms) c c' := by
  refine ⟨h2.stack.trans h1.stack, h1.size_le.trans h2.size_le, fun id hid => ?_, fun n hn => ?_⟩
  · rw [h2.view id (hid.trans_le h1.size_le), h1.view id hid]
  · obtain ⟨hn1, hn2⟩ := not_or.mp (mt List.mem_append.mpr hn)
    rw [h2.scopeOf n hn2, h1.scopeOf n hn1]

lemma mono (h : KeepsScopes ns c c') (hns : ∀ n ∈ ns, n ∈ ms) : KeepsScopes ms c c' :=
  { h with scopeOf := fun n hn => h.scopeOf n fun hm => hn (hns n hm) }

lemma opens (h : KeepsScopes ns c c') (hk : k < c.scopes.size) : Opens k ns noNames c c' := by
  refine ⟨h.stack, h.size_le, fun id hid _ => h.view id hid, fun kind parent n => ?_,
    fun name kind => ?_, h.scopeOf⟩
  · rw [ScopeAt, ScopeAt, h.view k hk]
    exact fun h => h
  · rw [declared?, declared?, h.view k hk]
    simp [noNames, lastNamed]

end KeepsScopes

namespace Opens

variable {ns ms : List NodeId} {es es' : SymbolKind → List (String × NodeId)}

lemma of_same (h : SameScopes c c') : Opens k ns noNames c c' := by
  have hscope : ∀ id, c'.view? id = c.view? id := fun id => by
    rw [view?, view?, scope?, scope?, h.scopes]
  refine ⟨h.stack, by rw [h.scopes], fun id _ _ => hscope id, fun kind parent n hk => ?_,
    fun name kind => ?_, fun n _ => ?_⟩
  · rwa [ScopeAt, hscope]
  · rw [declared?, hscope]
    simp [noNames, lastNamed, declared?]
  · rw [scopeOf?, h.nodeScopes]
    rfl

lemma trans (h1 : Opens k ns es c c1) (h2 : Opens k ms es' c1 c') :
    Opens k (ns ++ ms) (fun kind => es kind ++ es' kind) c c' := by
  refine ⟨h2.stack.trans h1.stack, h1.size_le.trans h2.size_le, fun id hid hk => ?_,
    fun kind parent n hk => h2.own _ _ _ (h1.own _ _ _ hk), fun name kind => ?_, fun n hn => ?_⟩
  · rw [h2.others id (hid.trans_le h1.size_le) hk, h1.others id hid hk]
  · rw [h2.names, h1.names, lastNamed_append, Option.or_assoc]
  · obtain ⟨hn1, hn2⟩ := not_or.mp (mt List.mem_append.mpr hn)
    rw [h2.scopeOf n hn2, h1.scopeOf n hn1]

lemma mono (h : Opens k ns es c c') (hns : ∀ n ∈ ns, n ∈ ms) (hes : ∀ kind, es kind = es' kind) :
    Opens k ms es' c c' :=
  { h with
    names := fun name kind => hes kind ▸ h.names name kind
    scopeOf := fun n hn => h.scopeOf n fun hm => hn (hns n hm) }

lemma current (h : Opens k ns es c c') : c'.current? = c.current? := by
  rw [current?, h.stack]
  rfl

end Opens

lemma opens_declare {d : NodeId} {l : Location} (hk : c.current? = some k)
    (h : Runs (Check.declare name kind d l) c () c') :
    Opens k [] (namesOf kind [(name, d)]) c c' := by
  obtain ⟨k', sc, sc', unique, hid, hsc, hinsert, rfl⟩ := Check.runs_declare h
  obtain rfl : k' = k := Option.some.inj (hid.symm.trans hk)
  obtain ⟨hkind, hnode, hparent⟩ :
      sc'.kind = sc.kind ∧ sc'.node = sc.node ∧ sc'.parent = sc.parent := by
    obtain ⟨symbols, rfl⟩ := Scope.insert?_eq hinsert
    exact ⟨rfl, rfl, rfl⟩
  have hview : ∀ id, (c.modifyScope k' fun _ => sc').view? id =
      if k' = id then some { sc' with returns := false } else c.view? id := by
    intro id
    rw [view?, scope?_modifyScope]
    split
    · next heq => rw [← heq, hsc]; rfl
    · rfl
  refine ⟨rfl, by simp [modifyScope], fun id _ hne => ?_, ?_, fun name' kind' => ?_,
    fun _ _ => rfl⟩
  · rw [hview, if_neg (Ne.symm hne)]
  · rintro kind' parent n ⟨sc0, h0, rfl, rfl, rfl⟩
    rw [view?, hsc] at h0
    cases h0
    exact ⟨_, (hview k').trans (if_pos rfl), hkind, hparent, hnode⟩
  · have hnew : (c.modifyScope k' fun _ => sc').declared? k' name' kind' =
        sc'.declaration? name' kind' := by
      rw [declared?, hview, if_pos rfl]
      rfl
    have hold : c.declared? k' name' kind' = sc.declaration? name' kind' := by
      rw [declared?, view?, hsc]
      rfl
    rw [hnew, hold, Scope.declaration?_insert? hinsert]
    by_cases hkind' : kind' = kind
    · subst hkind'
      by_cases hname : name = name' <;> simp [Symbol.isNamed, namesOf, lastNamed, hname]
    · simp [Symbol.isNamed, namesOf, lastNamed, hkind', Ne.symm hkind']

/-- A new scope for a node. -/
lemma view?_openScope {kind : ScopeKind} : (c.openScope kind n).2.view? id =
    if id = c.scopes.size then
      some { id := c.scopes.size, parent := c.current?, kind, node := n }
    else c.view? id := by
  rw [view?, scope?_openScope]
  split
  · rfl
  · rfl

/-- What is done inside a new scope. -/
lemma Opens.closed {kind : ScopeKind} {es : SymbolKind → List (String × NodeId)}
    (h : Opens c.scopes.size ns es (c.openScope kind n).2 c') :
    KeepsScopes (n :: ns) c c'.closeScope := by
  refine ⟨?_, ?_, fun id hid => ?_, fun m hm => ?_⟩
  · rw [closeScope, h.stack]
    rfl
  · have := h.size_le
    simp only [openScope, Array.size_push] at this
    exact (Nat.le_succ _).trans this
  · have hlt : id < (c.openScope kind n).2.scopes.size := by simp [openScope]; omega
    have hne : id ≠ c.scopes.size := Nat.ne_of_lt hid
    exact (h.others id hlt hne).trans (view?_openScope.trans (if_neg hne))
  · obtain ⟨hm, hns⟩ := not_or.mp (mt List.mem_cons.mpr hm)
    refine (h.scopeOf m hns).trans ?_
    exact (Table.get?_insert _ _ _ _).trans (if_neg hm)

lemma Opens.close {kind : ScopeKind} {es : SymbolKind → List (String × NodeId)}
    (hk : k < c.scopes.size) (h : Opens c.scopes.size ns es (c.openScope kind n).2 c') :
    Opens k (n :: ns) noNames c c'.closeScope :=
  h.closed.opens hk

/-! ### The scopes of declarations -/

/-- A node has a scope inside the scope `k`, with some names in it. -/
structure Homed (c : Context) (lo k : ScopeId) (kind : ScopeKind) (n : NodeId)
    (es : SymbolKind → List (String × NodeId)) (id : ScopeId) : Prop where
  le : lo ≤ id
  scopeOf : c.scopeOf? n = some id
  scope : c.ScopeAt id kind (some k) n
  names : ∀ name kind, c.declared? id name kind = lastNamed name (es kind)

lemma ScopeAt.lt {kind : ScopeKind} {parent : Option ScopeId} (h : c.ScopeAt id kind parent n) :
    id < c.scopes.size := by
  obtain ⟨sc, hsc, -⟩ := h
  obtain ⟨sc', hsc', -⟩ := Option.map_eq_some_iff.mp hsc
  exact scope?_lt hsc'

lemma Homed.congr {lo : ScopeId} {kind : ScopeKind} {es : SymbolKind → List (String × NodeId)}
    (h : Homed c lo k kind n es id) (hview : c'.view? id = c.view? id)
    (hscope : c'.scopeOf? n = c.scopeOf? n) : Homed c' lo k kind n es id := by
  refine ⟨h.le, hscope.trans h.scopeOf, ?_, fun name kind => ?_⟩
  · rw [ScopeAt, hview]
    exact h.scope
  · rw [declared?, hview]
    exact h.names name kind

/-- What a step in a new scope leaves there. -/
lemma Opens.homed {kind : ScopeKind} {es : SymbolKind → List (String × NodeId)}
    (hk : c.current? = some k) (hn : n ∉ ns)
    (h : Opens c.scopes.size ns es (c.openScope kind n).2 c') :
    Homed c'.closeScope c.scopes.size k kind n es c.scopes.size := by
  have hnew : (c.openScope kind n).2.view? c.scopes.size =
      some { id := c.scopes.size, parent := c.current?, kind, node := n } :=
    view?_openScope.trans (if_pos rfl)
  refine ⟨le_rfl, ?_, h.own kind (some k) n ⟨_, hnew, rfl, hk, rfl⟩, fun name kind' => ?_⟩
  · exact (h.scopeOf n hn).trans ((Table.get?_insert _ _ _ _).trans (if_pos rfl))
  · refine (h.names name kind').trans ?_
    rw [declared?, hnew]
    exact Option.or_none

end Context

/-- The nodes of parameters, under their names. -/
def Parameter.fields (ps : List Parameter) : List (String × NodeId) :=
  ps.map fun p => (p.name.name, p.id)

namespace Decl

/-- Whether a name stands for a value or for a type. -/
def symbolKind : Decl → SymbolKind
  | .object _ | .enum _ => .type
  | .function _ | .var _ | .foreign _ => .value

/-- The names that are declared, in order. -/
def names (ds : List Decl) (kind : SymbolKind) : List (String × NodeId) :=
  (ds.filter fun d => d.symbolKind = kind).map fun d => (d.name, d.node.id)

lemma names_singleton (d : Decl) :
    names [d] = Context.namesOf d.symbolKind [(d.name, d.node.id)] := by
  funext kind
  by_cases h : d.symbolKind = kind
  · simp [names, Context.namesOf, h]
  · simp [names, Context.namesOf, h, Ne.symm h]

lemma names_cons (d : Decl) (ds : List Decl) (kind : SymbolKind) :
    names [d] kind ++ names ds kind = names (d :: ds) kind := by
  by_cases h : d.symbolKind = kind <;> simp [names, h]

end Decl

mutual

/-- Classes and functions have their scopes, with numbers from `lo` on, inside the scope `k`. -/
def Decl.Scoped (c : Context) (lo k : ScopeId) : Decl → Prop
  | .object o => o.Scoped c lo k
  | .function f => ∃ id,
    c.Homed lo k .function f.id (Context.namesOf .value (Parameter.fields f.parameters)) id
  | .var _ | .enum _ | .foreign _ => True

def ClassDecl.Scoped (c : Context) (lo k : ScopeId) : ClassDecl → Prop
  | ⟨node, _, _, members⟩ => ∃ id,
    c.Homed lo k .object node.id (Decl.names members) id ∧ Decl.ScopedAll c lo id members

def Decl.ScopedAll (c : Context) (lo k : ScopeId) : List Decl → Prop
  | [] => True
  | d :: rest => d.Scoped c lo k ∧ Decl.ScopedAll c lo k rest

end

mutual

/-- Scopes of declarations stay, when the step comes neither to these scopes nor to the nodes. -/
lemma Decl.Scoped.congr {c c' : Context} {lo lo' : ScopeId} (hlo : lo' ≤ lo)
    (hview : ∀ id, lo ≤ id → id < c.scopes.size → c'.view? id = c.view? id) :
    ∀ {d : Decl} {k : ScopeId}, (∀ m ∈ d.all.map (·.node.id), c'.scopeOf? m = c.scopeOf? m) →
      d.Scoped c lo k → d.Scoped c' lo' k
  | .object o, k, hscope, h => ClassDecl.Scoped.congr hlo hview hscope h
  | .function f, k, hscope, ⟨id, h⟩ => by
    have h' := h.congr (hview id h.le h.scope.lt) (hscope f.id (by simp [Decl.all, Decl.node]))
    exact ⟨id, { h' with le := hlo.trans h.le }⟩
  | .var _, _, _, _ | .enum _, _, _, _ | .foreign _, _, _, _ => trivial

lemma ClassDecl.Scoped.congr {c c' : Context} {lo lo' : ScopeId} (hlo : lo' ≤ lo)
    (hview : ∀ id, lo ≤ id → id < c.scopes.size → c'.view? id = c.view? id) :
    ∀ {o : ClassDecl} {k : ScopeId},
      (∀ m ∈ (Decl.object o).all.map (·.node.id), c'.scopeOf? m = c.scopeOf? m) →
      o.Scoped c lo k → o.Scoped c' lo' k
  | ⟨node, _, _, members⟩, k, hscope, ⟨id, h, hall⟩ => by
    obtain ⟨hnode, hmembers⟩ := List.forall_mem_cons.mp hscope
    have h' := h.congr (hview id h.le h.scope.lt) hnode
    exact ⟨id, { h' with le := hlo.trans h.le }, Decl.ScopedAll.congr hlo hview hmembers hall⟩

lemma Decl.ScopedAll.congr {c c' : Context} {lo lo' : ScopeId} (hlo : lo' ≤ lo)
    (hview : ∀ id, lo ≤ id → id < c.scopes.size → c'.view? id = c.view? id) :
    ∀ {ds : List Decl} {k : ScopeId},
      (∀ m ∈ (Decl.allOf ds).map (·.node.id), c'.scopeOf? m = c.scopeOf? m) →
      Decl.ScopedAll c lo k ds → Decl.ScopedAll c' lo' k ds
  | [], _, _, _ => trivial
  | d :: rest, k, hscope, ⟨h, hall⟩ => by
    rw [Decl.allOf, List.map_append] at hscope
    obtain ⟨hd, hrest⟩ := List.forall_mem_append.mp hscope
    exact ⟨Decl.Scoped.congr hlo hview hd h, Decl.ScopedAll.congr hlo hview hrest hall⟩

end

lemma Decl.ScopedAll.same {c c' : Context} {lo lo' k : ScopeId} {ds : List Decl}
    (h : Decl.ScopedAll c lo k ds) (hlo : lo' ≤ lo) (hscopes : c'.scopes = c.scopes)
    (hnodes : c'.nodeScopes = c.nodeScopes) : Decl.ScopedAll c' lo' k ds := by
  refine h.congr hlo (fun id _ _ => ?_) fun m _ => ?_
  · rw [Context.view?, Context.view?, Context.scope?, Context.scope?, hscopes]
  · rw [Context.scopeOf?, Context.scopeOf?, hnodes]

/-! ### Collection -/

namespace Collect

open Context

variable {c c' : Context} {k : ScopeId} {tolerance : Tolerance} {n : NodeId}
  {parent : Option ScopeId} {kind : ScopeKind} {x : Slot}

/-- What is done inside the new scope of a node. -/
lemma runs_inScope_fresh {α : Type} {node : Node} {body : Check α} {a : α}
    (h : Runs (ScopeMode.fresh.inScope kind node body) c a c') :
    ∃ c1, Runs body (c.openScope kind node.id).2 a c1 ∧ c' = c1.closeScope := by
  obtain ⟨c1, c2, henter, hb, rfl⟩ := runs_bracket.mp h
  unfold Runs at henter
  rw [ScopeMode.outcome_enter, if_neg (by simp), if_neg (by simp [ScopeMode.mustReopen])] at henter
  cases henter
  exact ⟨c2, hb, rfl⟩

lemma opens_resolveInto {type : TypeExpr}
    (h : Runs (TypeExpr.resolveInto tolerance n type) c x c') : SameScopes c c' :=
  (TypeExpr.within_resolveInto _ _ _).of_runs h

/-- Parameters are declared in the scope of a function. -/
lemma opens_parametersFrom :
    ∀ {ps : List Parameter} {c c' : Context} {slots : List (String × Slot)},
      c.current? = some k → Runs (parametersFrom true tolerance ps) c slots c' →
        Opens k [] (namesOf .value (Parameter.fields ps)) c c'
  | [], c, c', slots, hk, hr => by
    simp only [parametersFrom, runs_pure] at hr
    obtain ⟨-, rfl⟩ := hr
    have h : Opens k [] noNames c c := .of_same (Std.Refl.refl c)
    exact h.mono (by simp) fun kind => by simp [noNames, namesOf, Parameter.fields]
  | p :: rest, c, c', slots, hk, hr => by
    simp only [parametersFrom, if_true, runs_bind, runs_pure] at hr
    obtain ⟨_, c1, hdecl, x, c2, hx, xs, _, hrest, -, rfl⟩ := hr
    have h1 := opens_declare hk hdecl
    have h2 : Opens k [] noNames c1 c2 := .of_same (opens_resolveInto hx)
    have h3 := opens_parametersFrom (h2.current.trans (h1.current.trans hk)) hrest
    refine ((h1.trans h2).trans h3).mono (by simp) fun kind => ?_
    by_cases hkind : kind = .value <;> simp [namesOf, noNames, Parameter.fields, hkind]

/-- Elsewhere they are not. -/
lemma same_parametersFrom :
    ∀ {ps : List Parameter} {c c' : Context} {slots : List (String × Slot)},
      Runs (parametersFrom false tolerance ps) c slots c' → SameScopes c c'
  | [], c, c', slots, hr => by
    simp only [parametersFrom, runs_pure] at hr
    obtain ⟨-, rfl⟩ := hr
    exact Std.Refl.refl c
  | p :: rest, c, c', slots, hr => by
    simp only [parametersFrom, Bool.false_eq_true, if_false, runs_bind, runs_pure] at hr
    obtain ⟨x, c1, hx, xs, _, hrest, -, rfl⟩ := hr
    exact (opens_resolveInto hx).trans (same_parametersFrom hrest)

lemma same_resultType {type : Option TypeExpr}
    (h : Runs (resultType tolerance type) c x c') : SameScopes c c' := by
  cases type with
  | none => exact (Check.within_alloc trivial).of_runs h
  | some type => exact (TypeExpr.within_resolve _ _).of_runs h

lemma same_setShape {shape : Shape} (h : c.setShape n shape = (x, c')) : SameScopes c c' :=
  (Check.within_setShape trivial).of_runs (Check.runs_setShape.mpr h)

lemma scoped_function {f : FunctionDecl} (hk : c.current? = some k) (hlt : k < c.scopes.size)
    (hr : Runs (function .fresh f) c () c') :
    Opens k [f.id] (namesOf .value [(f.name.name, f.id)]) c c' ∧
      (Decl.function f).Scoped c' c.scopes.size k := by
  simp only [function, runs_bind] at hr
  obtain ⟨_, c1, hdecl, hr⟩ := hr
  have h1 := opens_declare hk hdecl
  have hk1 := h1.current.trans hk
  obtain ⟨c2, hb, rfl⟩ := runs_inScope_fresh hr
  simp only [runs_bind, Check.runs_setShape, runs_pure] at hb
  obtain ⟨slots, c3, hps, r, c4, hreturns, x, _, hset, -, rfl⟩ := hb
  simp only [parameters, runs_bind, runs_get] at hps
  obtain ⟨_, _, ⟨rfl, rfl⟩, hps⟩ := hps
  have hkind : (c1.openScope .function f.id).2.currentKind? = some .function := by
    simp [currentKind?, current?, openScope, scopeKind?, scope?]
  rw [hkind] at hps
  have h3 := opens_parametersFrom (k := c1.scopes.size) rfl hps
  have h4 : Opens c1.scopes.size [] noNames c3 _ :=
    .of_same ((same_resultType hreturns).trans (same_setShape hset))
  have hbody : Opens c1.scopes.size [] (namesOf .value (Parameter.fields f.parameters)) _ _ :=
    (h3.trans h4).mono (by simp) fun kind => by simp [noNames]
  refine ⟨(h1.trans (hbody.close (hlt.trans_le h1.size_le))).mono (by simp) fun kind => by
    simp [noNames], c1.scopes.size, ?_⟩
  exact { hbody.homed hk1 (by simp) with le := h1.size_le }

lemma opens_variableDecl {v : VariableDecl} (hk : c.current? = some k)
    (hr : Runs (variableDecl v) c () c') :
    Opens k [] (namesOf .value [(v.name.name, v.id)]) c c' := by
  simp only [variableDecl, runs_bind] at hr
  obtain ⟨_, c1, hdecl, hr⟩ := hr
  have h1 := opens_declare hk hdecl
  have h2 : SameScopes c1 c' := by
    split at hr
    · simp only [runs_bind, runs_pure] at hr
      obtain ⟨x, _, hx, -, rfl⟩ := hr
      exact opens_resolveInto hx
    · simp only [runs_bind, runs_get] at hr
      obtain ⟨_, _, ⟨rfl, rfl⟩, guess, c2, halloc, x, c3, hslot, hassign⟩ := hr
      have h2 : SameScopes c1 c2 := (Check.within_alloc trivial).of_runs halloc
      have h3 : SameScopes c2 c3 := (Check.within_slotOf _).of_runs hslot
      exact h2.trans (h3.trans ((Check.within_assign _ _).of_runs hassign))
    · simp at hr
  have h3 : Opens k [] noNames c1 c' := .of_same h2
  exact (h1.trans h3).mono (by simp) fun kind => by simp [noNames]

lemma opens_enumItems : ∀ {items : List EnumItem} {c c' : Context} {slots : List Slot},
    c.current? = some k → Runs (enumItems items) c slots c' →
      Opens k [] (namesOf .value (items.map fun i => (i.name.name, i.id))) c c'
  | [], c, c', slots, hk, hr => by
    simp only [enumItems, runs_pure] at hr
    obtain ⟨-, rfl⟩ := hr
    have h : Opens k [] noNames c c := .of_same (Std.Refl.refl c)
    exact h.mono (by simp) fun kind => by simp [noNames, namesOf]
  | item :: rest, c, c', slots, hk, hr => by
    simp only [enumItems, runs_bind, runs_pure] at hr
    obtain ⟨_, c1, hdecl, x, c2, hitem, xs, _, hrest, -, rfl⟩ := hr
    have h1 := opens_declare hk hdecl
    have h2 : Opens k [] noNames c1 c2 :=
      .of_same ((TypeExpr.within_resolveItem _ _).of_runs hitem)
    have h3 := opens_enumItems (h2.current.trans (h1.current.trans hk)) hrest
    refine ((h1.trans h2).trans h3).mono (by simp) fun kind => ?_
    by_cases hkind : kind = .value <;> simp [namesOf, noNames, hkind]

lemma opens_enum {e : EnumDecl} (hk : c.current? = some k) (hlt : k < c.scopes.size)
    (hr : Runs (enum .fresh e) c () c') :
    Opens k [e.id] (namesOf .type [(e.name.name, e.id)]) c c' := by
  simp only [enum, runs_bind] at hr
  obtain ⟨_, c1, hdecl, hr⟩ := hr
  have h1 := opens_declare hk hdecl
  obtain ⟨c2, hb, rfl⟩ := runs_inScope_fresh hr
  simp only [runs_bind, runs_get, Check.runs_setShape, runs_pure] at hb
  obtain ⟨_, _, ⟨rfl, rfl⟩, slots, c3, hitems, x, _, hset, -, rfl⟩ := hb
  have h2 := opens_enumItems (k := c1.scopes.size) rfl hitems
  have h3 : Opens c1.scopes.size [] noNames c3 _ := .of_same (same_setShape hset)
  exact (h1.trans ((h2.trans h3).close (hlt.trans_le h1.size_le))).mono (by simp) fun kind => by
    simp [noNames]

lemma currentKind?_of_scopeAt (hk : c.current? = some k)
    (h : c.ScopeAt k kind parent n) : c.currentKind? = some kind := by
  obtain ⟨sc, hsc, rfl, -⟩ := h
  obtain ⟨sc', hsc', rfl⟩ := Option.map_eq_some_iff.mp hsc
  simp [currentKind?, hk, scopeKind?, hsc']

lemma opens_foreign {f : ForeignDecl} (hk : c.current? = some k)
    (hscope : c.ScopeAt k kind parent n) (hkind : kind ≠ .function)
    (hr : Runs (foreign f) c () c') :
    Opens k [] (namesOf .value [(f.name.name, f.id)]) c c' := by
  simp only [foreign, runs_bind, runs_orElseFault, Check.runs_setShape, Check.runs_types] at hr
  obtain ⟨_, c1, hdecl, slots, c2, hps, r, c3, hreturns, x, c4, hset, _, _, ⟨rfl, rfl⟩, hr⟩ := hr
  obtain rfl : c4 = c' := by
    split at hr
    · simp at hr
    · exact (runs_pure.mp hr).2
  have h1 := opens_declare hk hdecl
  simp only [parameters, runs_bind, runs_get] at hps
  obtain ⟨_, _, ⟨rfl, rfl⟩, hps⟩ := hps
  rw [currentKind?_of_scopeAt (h1.current.trans hk) (h1.own _ _ _ hscope)] at hps
  have hps' : SameScopes c1 c2 := same_parametersFrom (by simpa [hkind] using hps)
  have h2 : Opens k [] noNames c1 c4 :=
    .of_same (hps'.trans ((same_resultType hreturns).trans (same_setShape hset)))
  exact (h1.trans h2).mono (by simp) fun kind => by simp [noNames]

lemma same_addField {object : Slot} {member : Decl} (hr : Runs (addField object member) c () c') :
    SameScopes c c' := by
  unfold addField at hr
  split at hr
  · simp only [runs_bind, Check.runs_types, runs_modify] at hr
    obtain ⟨s, c1, hs, _, _, ⟨rfl, rfl⟩, rfl⟩ := hr
    have h : SameScopes c c1 := (Check.within_slotOf _).of_runs hs
    exact ⟨h.scopes, h.stack, h.nodeScopes⟩
  · simp only [runs_pure] at hr
    obtain ⟨-, rfl⟩ := hr
    exact Std.Refl.refl c

lemma same_baseType {base : Option TypeExpr} {b : Option Slot} (hr : Runs (baseType base) c b c') :
    SameScopes c c' := by
  cases base with
  | none =>
    simp only [baseType, runs_pure] at hr
    obtain ⟨-, rfl⟩ := hr
    exact Std.Refl.refl c
  | some type =>
    simp only [baseType, runs_bind, runs_pure] at hr
    obtain ⟨x, _, hx, -, rfl⟩ := hr
    exact (TypeExpr.within_resolve _ _).of_runs hx

mutual

/-- **Collecting a declaration** adds its name to the current scope, and gives the declaration and
those inside it scopes of their own. -/
lemma scoped_decl : ∀ {d : Decl} {c c' : Context} {k : ScopeId} {kind : ScopeKind}
    {parent : Option ScopeId} {n : NodeId}, c.current? = some k → c.ScopeAt k kind parent n →
    kind ≠ .function → (d.all.map (·.node.id)).Nodup → Runs (decl .fresh d) c () c' →
      Opens k (d.all.map (·.node.id)) (Decl.names [d]) c c' ∧ d.Scoped c' c.scopes.size k
  | .object o, c, c', k, _, _, _, hk, hscope, _, hnd, hr =>
    scoped_object hk hscope hnd (runs_within.mp hr)
  | .function f, c, c', k, _, _, _, hk, hscope, _, _, hr => by
    obtain ⟨h, hscoped⟩ := scoped_function hk hscope.lt (runs_within.mp hr)
    exact ⟨h.mono (by simp [Decl.all, Decl.node]) fun kind => by rw [Decl.names_singleton]; rfl,
      hscoped⟩
  | .var v, c, c', k, _, _, _, hk, _, _, _, hr => by
    exact ⟨(opens_variableDecl hk (runs_within.mp hr)).mono (by simp) fun kind => by
      rw [Decl.names_singleton]; rfl, trivial⟩
  | .enum e, c, c', k, _, _, _, hk, hscope, _, _, hr => by
    exact ⟨(opens_enum hk hscope.lt (runs_within.mp hr)).mono (by simp [Decl.all, Decl.node])
      fun kind => by rw [Decl.names_singleton]; rfl, trivial⟩
  | .foreign f, c, c', k, _, _, _, hk, hscope, hkind, _, hr => by
    exact ⟨(opens_foreign hk hscope hkind (runs_within.mp hr)).mono (by simp) fun kind => by
      rw [Decl.names_singleton]; rfl, trivial⟩

lemma scoped_object : ∀ {o : ClassDecl} {c c' : Context} {k : ScopeId} {kind : ScopeKind}
    {parent : Option ScopeId} {n : NodeId}, c.current? = some k → c.ScopeAt k kind parent n →
    ((Decl.object o).all.map (·.node.id)).Nodup → Runs (object .fresh o) c () c' →
      Opens k ((Decl.object o).all.map (·.node.id)) (Decl.names [.object o]) c c' ∧
        o.Scoped c' c.scopes.size k
  | ⟨node, name, base, members⟩, c, c', k, _, _, _, hk, hscope, hnd, hr => by
    obtain ⟨hnot, hnd⟩ := List.nodup_cons.mp hnd
    simp only [object, runs_bind] at hr
    obtain ⟨_, c1, hdecl, hr⟩ := hr
    have h1 := opens_declare hk hdecl
    have hk1 := h1.current.trans hk
    obtain ⟨c2, hb, rfl⟩ := runs_inScope_fresh hr
    simp only [runs_bind, runs_get, Check.runs_setShape] at hb
    obtain ⟨_, _, ⟨rfl, rfl⟩, b, c3, hbase, s, c4, hset, hfields⟩ := hb
    have h4 : Opens c1.scopes.size [] noNames (c1.openScope .object node.id).2 c4 :=
      .of_same ((same_baseType hbase).trans (same_setShape hset))
    have hnew : (c1.openScope .object node.id).2.ScopeAt c1.scopes.size .object
        (some k) node.id :=
      ⟨_, view?_openScope.trans (if_pos rfl), rfl, hk1, rfl⟩
    obtain ⟨h5, hall⟩ := scoped_fields (h4.current.trans rfl) (h4.own _ _ _ hnew) hnd hfields
    have hbody : Opens c1.scopes.size ((Decl.allOf members).map (·.node.id)) (Decl.names members)
        (c1.openScope .object node.id).2 c2 :=
      (h4.trans h5).mono (by simp) fun kind => by simp [noNames]
    refine ⟨(h1.trans (hbody.close (hscope.lt.trans_le h1.size_le))).mono
      (by simp [Decl.all, ClassDecl.all, Decl.node]) fun kind => ?_,
      c1.scopes.size, { hbody.homed hk1 hnot with le := h1.size_le }, ?_⟩
    · rw [Decl.names_singleton]
      simp [noNames, Decl.symbolKind, Decl.name, Decl.node]
      rfl
    · have hle : c.scopes.size ≤ c4.scopes.size := by
        have := h4.size_le
        simp only [openScope, Array.size_push] at this
        exact h1.size_le.trans ((Nat.le_succ _).trans this)
      exact hall.same hle rfl rfl

lemma scoped_fields {s : Slot} : ∀ {ds : List Decl} {c c' : Context} {k : ScopeId}
    {parent : Option ScopeId} {n : NodeId}, c.current? = some k → c.ScopeAt k .object parent n →
    ((Decl.allOf ds).map (·.node.id)).Nodup → Runs (fields .fresh s ds) c () c' →
      Opens k ((Decl.allOf ds).map (·.node.id)) (Decl.names ds) c c' ∧
        Decl.ScopedAll c' c.scopes.size k ds
  | [], c, c', k, _, _, _, _, _, hr => by
    simp only [fields, runs_pure] at hr
    obtain ⟨-, rfl⟩ := hr
    have h : Opens k [] noNames c c := .of_same (Std.Refl.refl c)
    exact ⟨h.mono (by simp) fun kind => by simp [noNames, Decl.names], trivial⟩
  | d :: rest, c, c', k, parent, n, hk, hscope, hnd, hr => by
    simp only [Decl.allOf, List.map_append] at hnd ⊢
    obtain ⟨hnd1, hnd2, hdisjoint⟩ := List.nodup_append'.mp hnd
    simp only [fields, runs_bind] at hr
    obtain ⟨_, c1, hdecl, _, c2, hadd, hr⟩ := hr
    obtain ⟨h1, hscoped⟩ := scoped_decl hk hscope (by simp) hnd1 hdecl
    have h2 : Opens k [] noNames c1 c2 := .of_same (same_addField hadd)
    have h12 : Opens k (d.all.map (·.node.id)) (Decl.names [d]) c c2 :=
      (h1.trans h2).mono (by simp) fun kind => by simp [noNames]
    obtain ⟨h3, hall⟩ := scoped_fields (h12.current.trans hk) (h12.own _ _ _ hscope) hnd2 hr
    refine ⟨(h12.trans h3).mono (by simp) fun kind => d.names_cons rest kind, ?_,
      hall.congr h12.size_le (fun _ _ _ => rfl) fun _ _ => rfl⟩
    refine hscoped.congr le_rfl (fun id hid hlt => ?_) fun m hm => ?_
    · have hne : id ≠ k := (Nat.lt_of_lt_of_le hscope.lt hid).ne'
      rw [h3.others id (hlt.trans_le h2.size_le) hne, h2.others id hlt hne]
    · rw [h3.scopeOf m (hdisjoint hm), h2.scopeOf m (by simp)]

end

lemma scoped_decls : ∀ {ds : List Decl} {c c' : Context} {k : ScopeId} {kind : ScopeKind}
    {parent : Option ScopeId} {n : NodeId}, c.current? = some k → c.ScopeAt k kind parent n →
    kind ≠ .function → ((Decl.allOf ds).map (·.node.id)).Nodup → Runs (decls .fresh ds) c () c' →
      Opens k ((Decl.allOf ds).map (·.node.id)) (Decl.names ds) c c' ∧
        Decl.ScopedAll c' c.scopes.size k ds
  | [], c, c', k, _, _, _, _, _, _, _, hr => by
    simp only [decls, runs_pure] at hr
    obtain ⟨-, rfl⟩ := hr
    have h : Opens k [] noNames c c := .of_same (Std.Refl.refl c)
    exact ⟨h.mono (by simp) fun kind => by simp [noNames, Decl.names], trivial⟩
  | d :: rest, c, c', k, kind, parent, n, hk, hscope, hkind, hnd, hr => by
    simp only [Decl.allOf, List.map_append] at hnd ⊢
    obtain ⟨hnd1, hnd2, hdisjoint⟩ := List.nodup_append'.mp hnd
    simp only [decls, runs_bind] at hr
    obtain ⟨_, c1, hdecl, hr⟩ := hr
    obtain ⟨h1, hscoped⟩ := scoped_decl hk hscope hkind hnd1 hdecl
    obtain ⟨h2, hall⟩ := scoped_decls (h1.current.trans hk) (h1.own _ _ _ hscope) hkind hnd2 hr
    refine ⟨(h1.trans h2).mono (by simp) fun kind => d.names_cons rest kind, ?_,
      hall.congr h1.size_le (fun _ _ _ => rfl) fun _ _ => rfl⟩
    refine hscoped.congr le_rfl (fun id hid hlt => ?_) fun m hm => h2.scopeOf m (hdisjoint hm)
    exact h2.others id hlt (Nat.lt_of_lt_of_le hscope.lt hid).ne'

/-- **The scopes of a program** that has been collected. -/
lemma scoped_program {p : Program} (hnd : (p.id :: p.allDecls.map (·.node.id)).Nodup)
    (hr : Runs (program .fresh p) {} () c) :
    c.scopeOf? p.id = some rootScope ∧ c.ScopeAt rootScope .program none p.id ∧
      (∀ name kind, c.declared? rootScope name kind =
        lastNamed name (Decl.names p.declarations kind)) ∧
      c.stack = [] ∧ Decl.ScopedAll c 1 rootScope p.declarations := by
  obtain ⟨hroot, hnd⟩ := List.nodup_cons.mp hnd
  obtain ⟨c1, hb, rfl⟩ := runs_inScope_fresh hr
  have hnew : (Context.openScope {} .program p.id).2.ScopeAt rootScope .program none p.id :=
    ⟨_, view?_openScope.trans (if_pos rfl), rfl, rfl, rfl⟩
  obtain ⟨h, hall⟩ := scoped_decls rfl hnew (by simp) hnd hb
  refine ⟨?_, h.own _ _ _ hnew, fun name kind => ?_, ?_, ?_⟩
  · exact (h.scopeOf p.id hroot).trans ((Table.get?_insert _ _ _ _).trans (if_pos rfl))
  · refine (h.names name kind).trans ?_
    exact Option.or_none
  · rw [closeScope, h.stack]
    rfl
  · exact hall.same le_rfl rfl rfl

end Collect

/-! ### Scopes that are opened again -/

namespace Context

variable {c c1 c' : Context} {id : ScopeId} {n : NodeId} {kind : ScopeKind}

/-- Outside functions, the second walk opens the scope of a node again. -/
lemma runs_reopen {l : Location} (hkind : kind ≠ .body) (hc : c.isInside .function = false)
    (h : Runs (ScopeMode.reopen.enter kind n l) c () c') :
    ∃ id, c.scopeOf? n = some id ∧ c' = { c with stack := id :: c.stack } := by
  unfold Runs at h
  rw [ScopeMode.outcome_enter, if_neg (by simp), if_pos (by simp [ScopeMode.mustReopen, hkind, hc])]
    at h
  split at h
  · next id hid =>
    cases h
    exact ⟨id, hid, rfl⟩
  · cases h

lemma SameScopes.reopened (h : SameScopes { c with stack := id :: c.stack } c') :
    SameScopes c c'.closeScope :=
  ⟨h.scopes, by rw [closeScope, h.stack]; rfl, h.nodeScopes⟩

lemma SameScopes.view? (h : SameScopes c c') (id : ScopeId) : c'.view? id = c.view? id := by
  rw [Context.view?, Context.view?, scope?, scope?, h.scopes]

lemma SameScopes.scopeOf? (h : SameScopes c c') (n : NodeId) : c'.scopeOf? n = c.scopeOf? n := by
  rw [Context.scopeOf?, h.nodeScopes]
  rfl

lemma SameScopes.isInside (h : SameScopes c c') (kind : ScopeKind) :
    c'.isInside kind = c.isInside kind := by
  have hkind : c'.scopeKind? = c.scopeKind? := by
    funext id
    rw [scopeKind?, scopeKind?, scope?, scope?, h.scopes]
  rw [Context.isInside, Context.isInside, enclosing?, enclosing?, h.stack, hkind]

/-- A scope that is no function does not lead into one. -/
lemma isInside_push {parent : Option ScopeId} (hc : c.isInside .function = false)
    (hid : c.ScopeAt id kind parent n) (hkind : kind ≠ .function) :
    ({ c with stack := id :: c.stack } : Context).isInside .function = false := by
  obtain ⟨sc, hsc, rfl, -⟩ := hid
  obtain ⟨sc', hsc', rfl⟩ := Option.map_eq_some_iff.mp hsc
  have : c.scopeKind? id = some sc'.kind := by simp [scopeKind?, hsc']
  rw [Context.isInside, enclosing?]
  change (List.find? (fun id => decide (c.scopeKind? id = some .function)) (id :: c.stack)).isSome
    = false
  rw [List.find?_cons, this]
  simpa [hkind, Context.isInside, enclosing?] using hc

end Context

end Sema
