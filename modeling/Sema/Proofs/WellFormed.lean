import Mathlib.Data.List.Chain
import Mathlib.Data.List.Nodup
import Sema.Proofs.Growth
import Sema.Proofs.Keeps

/-!
Contexts that are well formed, and the operations on them.

A context refers to scopes and slots by their numbers, in many places: on the stack, in its tables,
from a scope to its parent, inside types. It is well formed when all these numbers are those of
scopes and slots that exist, when the parent of a scope is older than the scope, and when no scope
has two symbols of one name and kind. An operation that is given existing handles keeps a context
well formed, whether it succeeds or not, and the handle that it returns exists as well.
-/

namespace Sema

open Sema.Action

/-! ### Well-formed contexts -/

/-- The scope that a type was resolved in, or that a class or enum has. -/
def Shape.scope? : Shape → Option ScopeId
  | record scope _ | object scope .. | enum scope .. | enumItem scope .. | inlineEnum scope _ =>
    some scope
  | _ => none

/-- What makes two symbols of a scope the same. -/
def Symbol.key (s : Symbol) : String × SymbolKind :=
  (s.name, s.kind)

namespace Context

/-- The slots that the shape refers to exist, and so does its scope. Outside of all scopes a type
counts as resolved in the root scope, which need not exist then. -/
structure Knows (c : Context) (shape : Shape) : Prop where
  handles : ∀ y ∈ shape.handles, y < c.types.size
  scope : ∀ id, shape.scope? = some id → id = rootScope ∨ id < c.scopes.size

/-- Every number that the context holds is that of a scope or slot that exists. -/
structure WellFormed (c : Context) : Prop where
  scopes : ∀ id sc, c.scope? id = some sc →
    sc.id = id ∧ ∀ parent, sc.parent = some parent → parent < id
  symbols : ∀ id sc, c.scope? id = some sc → (sc.symbols.map Symbol.key).Nodup
  stack : ∀ id ∈ c.stack, id < c.scopes.size
  nodeScopes : ∀ n id, c.scopeOf? n = some id → id < c.scopes.size
  nodeTypes : ∀ n x, c.nodeType? n = some x → x < c.types.size
  slots : ∀ x < c.types.size, c.Knows (c.types.get x)

variable {c c' : Context} {shape : Shape}

lemma Knows.mono (h : c.Knows shape) (hsize : c.types.size ≤ c'.types.size)
    (hscopes : c.scopes.size ≤ c'.scopes.size) : c'.Knows shape :=
  ⟨fun y hy => (h.handles y hy).trans_le hsize,
    fun id hid => (h.scope id hid).imp_right (·.trans_le hscopes)⟩

/-- A shape without parts and without a scope. -/
lemma Knows.leaf (h : shape.handles = []) (hscope : shape.scope? = none) : c.Knows shape :=
  ⟨by simp [h], by simp [hscope]⟩

namespace WellFormed

/-- **A context that nothing is known in** is well formed. -/
lemma empty : WellFormed {} :=
  ⟨by simp [scope?], by simp [scope?], by simp, by simp [scopeOf?], by simp [nodeType?],
    fun x hx => absurd hx (Nat.not_lt_zero x)⟩

/-- A slot that does not exist counts as unknown, and so this holds of all of them. -/
lemma knows (hc : c.WellFormed) (x : Slot) : c.Knows (c.types.get x) := by
  by_cases hx : x < c.types.size
  · exact hc.slots x hx
  · rw [c.types.get_eq_unknown (Nat.le_of_not_lt hx)]
    exact .leaf rfl rfl

/-- New types: what is stored was stored before, or refers to slots that exist. -/
lemma retype {types : TypeStore} {nodeTypes : Table Slot} (hc : c.WellFormed)
    (hsize : c.types.size ≤ types.size) (hnodes : ∀ n x, nodeTypes.get? n = some x → x < types.size)
    (hslots : ∀ x, (∃ y, c.types.get y = types.get x) ∨
      Knows { c with types, nodeTypes } (types.get x)) :
    WellFormed { c with types, nodeTypes } := by
  refine ⟨hc.scopes, hc.symbols, hc.stack, hc.nodeScopes, hnodes, fun x _ => ?_⟩
  rcases hslots x with ⟨y, hy⟩ | h
  · exact hy ▸ (hc.knows y).mono hsize le_rfl
  · exact h

/-- Another table for the slots of nodes. -/
lemma nodeTypes_insert (hc : c.WellFormed) {n : NodeId} {x : Slot} {size : Nat} (hx : x < size)
    (hsize : c.types.size ≤ size) :
    ∀ k y, (c.nodeTypes.insert n x).get? k = some y → y < size := by
  intro k y hk
  rw [Table.get?_insert] at hk
  split at hk
  · cases hk
    exact hx
  · exact (hc.nodeTypes k y hk).trans_le hsize

lemma alloc (hc : c.WellFormed) (h : c.Knows shape) : (c.alloc shape).2.WellFormed := by
  refine hc.retype (by simp) (fun n x hx => ?_) fun x => ?_
  · exact (hc.nodeTypes n x hx).trans_le (by simp)
  · rw [TypeStore.get_alloc]
    split
    · exact .inr (h.mono (by simp) le_rfl)
    · exact .inl ⟨x, rfl⟩

lemma allocFor (hc : c.WellFormed) (n : NodeId) (h : c.Knows shape) :
    (c.allocFor n shape).2.WellFormed := by
  refine hc.retype (by simp) (hc.nodeTypes_insert (by simp) (by simp)) fun x => ?_
  rw [TypeStore.get_alloc]
  split
  · exact .inr (h.mono (by simp) le_rfl)
  · exact .inl ⟨x, rfl⟩

lemma set (hc : c.WellFormed) (x : Slot) (h : c.Knows shape) :
    WellFormed { c with types := c.types.set x shape } := by
  refine hc.retype (by simp) (fun n y hy => ?_) fun y => ?_
  · exact (hc.nodeTypes n y hy).trans_le (by simp)
  · rcases c.types.get_set_cases x y shape with hget | hget
    · rw [hget]
      exact .inr (h.mono (by simp) le_rfl)
    · exact .inl ⟨y, hget.symm⟩

lemma assign (hc : c.WellFormed) (target source : Slot) : (c.assign target source).WellFormed := by
  unfold Context.assign TypeStore.assign
  split
  · exact hc
  · exact hc.set target (hc.knows source)

lemma slotOf (hc : c.WellFormed) (n : NodeId) : (c.slotOf n).2.WellFormed := by
  rcases hn : c.nodeType? n with _ | x
  · rw [slotOf_of_none hn]
    exact hc.allocFor n (.leaf rfl rfl)
  · rw [slotOf_of_some hn]
    exact hc

lemma bind (hc : c.WellFormed) (n : NodeId) {source : Slot} (h : source < c.types.size) :
    (c.bind n source).2.WellFormed := by
  rcases hn : c.nodeType? n with _ | x
  · rw [bind_of_none hn]
    exact hc.retype le_rfl (hc.nodeTypes_insert h le_rfl) fun x => .inl ⟨x, rfl⟩
  · rw [bind_of_some hn]
    exact hc.assign x source

lemma setShape (hc : c.WellFormed) (n : NodeId) (h : c.Knows shape) :
    (c.setShape n shape).2.WellFormed := by
  rcases hn : c.nodeType? n with _ | x
  · rw [setShape_of_none hn]
    exact hc.allocFor n h
  · rw [setShape_of_some hn]
    exact hc.set x h

/-- Another stack of open scopes. -/
lemma restack (hc : c.WellFormed) {stack : List ScopeId} (h : ∀ id ∈ stack, id < c.scopes.size) :
    WellFormed { c with stack } :=
  ⟨hc.scopes, hc.symbols, h, hc.nodeScopes, hc.nodeTypes,
    fun x hx => ⟨(hc.slots x hx).handles, (hc.slots x hx).scope⟩⟩

lemma closeScope (hc : c.WellFormed) : c.closeScope.WellFormed :=
  hc.restack fun id hid => hc.stack id (List.mem_of_mem_tail hid)

lemma current?_lt (hc : c.WellFormed) {id : ScopeId} (h : c.current? = some id) :
    id < c.scopes.size :=
  hc.stack id (List.mem_of_mem_head? h)

lemma openScope (hc : c.WellFormed) (kind : ScopeKind) (n : NodeId) :
    (c.openScope kind n).2.WellFormed := by
  have hsize : (c.openScope kind n).2.scopes.size = c.scopes.size + 1 := by simp [Context.openScope]
  -- a scope is an old one, or the new one, whose parent is the current scope
  have hcases : ∀ id sc, (c.openScope kind n).2.scope? id = some sc → c.scope? id = some sc ∨
      id = c.scopes.size ∧ sc = ⟨c.scopes.size, c.current?, kind, n, [], false⟩ := by
    intro id sc h
    rw [scope?_openScope] at h
    split at h
    · next heq => exact .inr ⟨heq, (Option.some.inj h).symm⟩
    · exact .inl h
  refine ⟨fun id sc h => ?_, fun id sc h => ?_, fun id h => ?_, fun m id h => ?_, hc.nodeTypes,
    fun x hx => (hc.slots x hx).mono le_rfl (by omega)⟩
  · rcases hcases id sc h with h | ⟨rfl, rfl⟩
    · exact hc.scopes id sc h
    · exact ⟨rfl, fun parent hparent => hc.current?_lt hparent⟩
  · rcases hcases id sc h with h | ⟨-, rfl⟩
    · exact hc.symbols id sc h
    · exact List.nodup_nil
  · rw [hsize]
    rcases List.mem_cons.mp h with rfl | h
    · exact Nat.lt_succ_self _
    · exact (hc.stack id h).trans (Nat.lt_succ_self _)
  · rw [hsize]
    have h : (c.nodeScopes.insert n c.scopes.size).get? m = some id := h
    rw [Table.get?_insert] at h
    split at h
    · cases h
      exact Nat.lt_succ_self _
    · exact (hc.nodeScopes m id h).trans (Nat.lt_succ_self _)

/-- A scope may get other symbols, and be marked. -/
lemma modifyScope (hc : c.WellFormed) {id : ScopeId} {f : Scope → Scope}
    (h : ∀ sc, c.scope? id = some sc → (f sc).id = sc.id ∧ (f sc).parent = sc.parent ∧
      ((f sc).symbols.map Symbol.key).Nodup) : (c.modifyScope id f).WellFormed := by
  have hsize : (c.modifyScope id f).scopes.size = c.scopes.size := by simp [Context.modifyScope]
  have hcases : ∀ k sc, (c.modifyScope id f).scope? k = some sc →
      ∃ old, c.scope? k = some old ∧ sc.id = old.id ∧ sc.parent = old.parent ∧
        (sc.symbols.map Symbol.key).Nodup := by
    intro k sc hk
    rw [scope?_modifyScope] at hk
    split at hk
    · next heq =>
      subst heq
      obtain ⟨old, hold, rfl⟩ := Option.map_eq_some_iff.mp hk
      exact ⟨old, hold, h old hold⟩
    · exact ⟨sc, hk, rfl, rfl, hc.symbols k sc hk⟩
  refine ⟨fun k sc hk => ?_, fun k sc hk => ?_, fun k hk => hsize ▸ hc.stack k hk,
    fun n k hk => hsize ▸ hc.nodeScopes n k hk, hc.nodeTypes,
    fun x hx => (hc.slots x hx).mono le_rfl hsize.ge⟩
  · obtain ⟨old, hold, hid, hparent, -⟩ := hcases k sc hk
    rw [hid, hparent]
    exact hc.scopes k old hold
  · obtain ⟨-, -, -, -, hnodup⟩ := hcases k sc hk
    exact hnodup

end WellFormed

end Context

/-! ### Symbols of a scope -/

namespace Scope

lemma key_of_isNamed {s symbol : Symbol} (h : s.isNamed symbol.name symbol.kind = true) :
    s.key = symbol.key := by
  simp only [Symbol.isNamed, Bool.and_eq_true, decide_eq_true_eq] at h
  rw [Symbol.key, h.1, h.2, Symbol.key]

lemma map_key_replaceSymbol (symbol : Symbol) (symbols : List Symbol) :
    (replaceSymbol symbol symbols).map Symbol.key = symbols.map Symbol.key := by
  induction symbols with
  | nil => rfl
  | cons s rest ih =>
    unfold replaceSymbol
    split
    · next h => rw [List.map_cons, List.map_cons, key_of_isNamed h]
    · rw [List.map_cons, ih, List.map_cons]

/-- **No two symbols of one name and kind**, also when one more is added. -/
lemma nodup_insert? {sc sc' : Scope} {symbol : Symbol} {unique : Bool}
    (hnd : (sc.symbols.map Symbol.key).Nodup) (h : sc.insert? symbol unique = some sc') :
    sc'.id = sc.id ∧ sc'.parent = sc.parent ∧ (sc'.symbols.map Symbol.key).Nodup := by
  unfold insert? at h
  split at h
  · next hnone =>
    cases h
    refine ⟨rfl, rfl, ?_⟩
    rw [List.map_append, List.map_singleton, List.nodup_append']
    refine ⟨hnd, List.nodup_singleton _, List.disjoint_singleton.mpr fun hmem => ?_⟩
    obtain ⟨s, hs, hkey⟩ := List.mem_map.mp hmem
    have hnamed := List.find?_eq_none.mp hnone s hs
    simp only [Symbol.key, Prod.mk.injEq] at hkey
    simp [Symbol.isNamed, hkey.1, hkey.2] at hnamed
  · split at h
    · cases h
      exact ⟨rfl, rfl, hnd⟩
    · split at h
      · cases h
      · cases h
        refine ⟨rfl, rfl, ?_⟩
        rwa [map_key_replaceSymbol]

end Scope

/-! ### Chains of scopes and slots -/

namespace Graph

variable {next : Nat → Option Nat}

/-- A trail that goes down is not cut short: it ends where there is no successor. -/
lemma trailFrom_descending (hnext : ∀ v w, next v = some w → w < v) :
    ∀ {fuel : Nat} {seen : List Nat} {v : Nat}, v < fuel → (∀ u ∈ seen, v < u) →
      ∃ rest, trailFrom next fuel seen v = v :: rest ∧
        List.IsChain (fun k p => next k = some p) (v :: rest) ∧
        ∃ last, (v :: rest).getLast? = some last ∧ next last = none
  | 0, _, _, hv, _ => absurd hv (Nat.not_lt_zero _)
  | fuel + 1, seen, v, hv, hseen => by
    have hnew : v ∉ seen := fun hmem => Nat.lt_irrefl v (hseen v hmem)
    rw [trailFrom, if_neg hnew]
    rcases hw : next v with _ | w
    · exact ⟨[], rfl, .singleton v, v, rfl, hw⟩
    · have hlt := hnext v w hw
      have hseen' : ∀ u ∈ v :: seen, w < u :=
        List.forall_mem_cons.mpr ⟨hlt, fun u hu => hlt.trans (hseen u hu)⟩
      obtain ⟨rest, hrest, hchain, last, hlast, hend⟩ :=
        trailFrom_descending hnext (by omega : w < fuel) hseen'
      exact ⟨w :: rest, congrArg _ hrest, .cons_cons hw hchain, last, hlast, hend⟩

end Graph

namespace Context.WellFormed

variable {c : Context} {id : ScopeId} {x y : Slot}

lemma parent?_lt (hc : c.WellFormed) {parent : ScopeId} (h : c.parent? id = some parent) :
    parent < id := by
  obtain ⟨sc, hsc, hparent⟩ := Option.bind_eq_some_iff.mp h
  exact (hc.scopes id sc hsc).2 parent hparent

/-- All scopes around a scope exist. -/
lemma around_lt (hc : c.WellFormed) (hid : id < c.scopes.size) :
    ∀ k ∈ c.around id, k < c.scopes.size :=
  Graph.mem_trailFrom (fun _ hk _ hp => (hc.parent?_lt hp).trans hk) hid

/-- **The chain of a scope**, from the outermost one on: each scope but the first has the one before
it as its parent, the first has none, and the last is the scope itself. -/
lemma chain (hc : c.WellFormed) (hid : id < c.scopes.size) :
    List.IsChain (fun p k => c.parent? k = some p) (c.around id).reverse ∧
      (c.around id).reverse.getLast? = some id ∧
      ∃ root, (c.around id).reverse.head? = some root ∧ c.parent? root = none := by
  have hnone : ∀ k ∈ ([] : List ScopeId), id < k := by simp
  obtain ⟨rest, htrail, hchain, last, hlast, hend⟩ :=
    Graph.trailFrom_descending (fun _ _ => hc.parent?_lt) (Nat.lt_succ_of_lt hid) hnone
  have haround : c.around id = id :: rest := htrail
  rw [haround]
  refine ⟨List.isChain_reverse.mpr hchain, by simp, last, ?_, hend⟩
  rw [List.head?_reverse, hlast]

lemma types_inRange (hc : c.WellFormed) : c.types.InRange := by
  intro shape hshape y hy
  obtain ⟨x, hx, rfl⟩ := Array.mem_iff_getElem.mp hshape
  have hget : c.types.get x = c.types.slots[x] := by simp [TypeStore.get, hx]
  exact (hc.knows x).handles y (hget ▸ hy)

/-- The parts of a type exist, -/
lemma parts_lt (hc : c.WellFormed) (hx : x < c.types.size) :
    ∀ y ∈ c.types.parts x, y < c.types.size :=
  fun _ hy => hc.types_inRange.part_lt hx (TypeStore.mem_parts.mp hy)

lemma base?_lt (hc : c.WellFormed) (h : c.types.base? x = some y) : y < c.types.size :=
  (hc.knows x).handles y (Shape.mem_handles_of_base? h)

/-- and so do the base classes of a class. -/
lemma lineage_lt (hc : c.WellFormed) (hx : x < c.types.size) :
    ∀ y ∈ c.types.lineage x, y < c.types.size :=
  TypeStore.mem_lineage (fun _ _ _ h => hc.base?_lt h) hx

/-- A scope inside a type exists, as soon as there is a scope at all. -/
lemma classScope_lt (hc : c.WellFormed) (hpos : 0 < c.scopes.size)
    (h : (c.types.get x).scope? = some id) : id < c.scopes.size := by
  rcases (hc.knows x).scope id h with rfl | hlt
  · exact hpos
  · exact hlt

lemma baseScope?_lt (hc : c.WellFormed) (hpos : 0 < c.scopes.size) {k : ScopeId}
    (h : c.baseScope? id = some k) : k < c.scopes.size := by
  unfold Context.baseScope? at h
  simp only [Option.bind_eq_bind, Option.bind_eq_some_iff] at h
  obtain ⟨sc, -, object, -, base, -, h⟩ := h
  split at h
  · next scope _ _ _ hshape =>
    cases h
    exact hc.classScope_lt hpos (by rw [hshape]; rfl)
  · cases h

/-- **Where a name is looked for**: all these scopes exist. -/
lemma searched_lt (hc : c.WellFormed) (kind : SymbolKind) :
    ∀ k ∈ c.searched kind, k < c.scopes.size := by
  intro k hk
  unfold Context.searched at hk
  split at hk
  · next id hid =>
    obtain ⟨outer, houter, hk⟩ := List.mem_flatMap.mp hk
    have hlt := hc.around_lt (hc.current?_lt hid) outer houter
    have hbases : ∀ k ∈ Graph.trail c.baseScope? c.scopes.size outer, k < c.scopes.size :=
      Graph.mem_trailFrom (fun _ hk _ hb => hc.baseScope?_lt (Nat.zero_lt_of_lt hk) hb) hlt
    unfold Context.searchedAt at hk
    split at hk
    · rcases List.mem_cons.mp hk with rfl | hk
      · exact hlt
      · exact hbases k (List.mem_of_mem_tail hk)
    · rw [List.mem_singleton.mp hk]
      exact hlt
  · cases hk

lemma enclosing?_lt (hc : c.WellFormed) {kind : ScopeKind} (h : c.enclosing? kind = some id) :
    id < c.scopes.size :=
  hc.stack id (List.mem_of_find?_eq_some h)

end Context.WellFormed

/-! ### Operations -/

/-- The operations that change a context. -/
inductive Op where
  | openScope (kind : ScopeKind) (n : NodeId)
  | reopenScope (n : NodeId) (location : Location)
  | closeScope
  | enter (mode : ScopeMode) (kind : ScopeKind) (n : NodeId) (location : Location)
  | leave (mode : ScopeMode)
  | setStack (stack : List ScopeId)
  | addSymbol (symbol : Symbol) (unique : Bool) (location : Location)
  | declare (name : String) (kind : SymbolKind) (declaration : NodeId) (location : Location)
  | markReturn (id : ScopeId)
  | alloc (shape : Shape)
  | set (x : Slot) (shape : Shape)
  | assign (target source : Slot)
  | slotOf (n : NodeId)
  | bind (n : NodeId) (source : Slot)
  | setShape (n : NodeId) (shape : Shape)
  | setFlow (n : NodeId) (g : FlowGraph)

/-- What an operation returns. -/
inductive Handle where
  | nothing
  | slot (x : Slot)
  | scope (id : ScopeId)

/-- The handle is that of something that exists. -/
def Handle.Exists (c : Context) : Handle → Prop
  | nothing => True
  | slot x => x < c.types.size
  | scope id => id < c.scopes.size

namespace Op

/-- Applies the operation. -/
def run [Access] : Op → Check Handle
  | openScope kind n => Handle.scope <$> modifyGet fun c => c.openScope kind n
  | reopenScope n location => Handle.scope <$> Check.reopenScope n location
  | closeScope => (fun _ => Handle.nothing) <$> (modify fun c => c.closeScope : Check Unit)
  | enter mode kind n location => (fun _ => Handle.nothing) <$> mode.enter kind n location
  | leave mode => (fun _ => Handle.nothing) <$> (modify fun c => mode.leave c : Check Unit)
  | setStack stack => (fun _ => Handle.nothing) <$> (modify fun c => { c with stack } : Check Unit)
  | addSymbol symbol unique location =>
    (fun _ => Handle.nothing) <$> Check.addSymbol symbol unique location
  | declare name kind declaration location =>
    (fun _ => Handle.nothing) <$> Check.declare name kind declaration location
  | markReturn id => (fun _ => Handle.nothing) <$> (modify fun c => c.markReturn id : Check Unit)
  | alloc shape => Handle.slot <$> Check.alloc shape
  | set x shape => (fun _ => Handle.nothing) <$>
      (modify fun c => { c with types := c.types.set x shape } : Check Unit)
  | assign target source => (fun _ => Handle.nothing) <$> Check.assign target source
  | slotOf n => Handle.slot <$> Check.slotOf n
  | bind n source => Handle.slot <$> Check.bind n source
  | setShape n shape => Handle.slot <$> Check.setShape n shape
  | setFlow n g => (fun _ => Handle.nothing) <$> (modify fun c => c.setFlow n g : Check Unit)

/-- The operation is only given handles that exist. -/
def Valid (c : Context) : Op → Prop
  | setStack stack => ∀ id ∈ stack, id < c.scopes.size
  | markReturn id => id < c.scopes.size
  | alloc shape | setShape _ shape => c.Knows shape
  | set x shape => x < c.types.size ∧ c.Knows shape
  | assign target source => target < c.types.size ∧ source < c.types.size
  | bind _ source => source < c.types.size
  | _ => True

end Op

/-- Slots and scopes never go away, a node keeps its slot, and one that has a scope has one. -/
structure Context.Onward (c c' : Context) : Prop where
  size_le : c.types.size ≤ c'.types.size
  scopes_le : c.scopes.size ≤ c'.scopes.size
  nodeType : ∀ n x, c.nodeType? n = some x → c'.nodeType? n = some x
  scopeOf : ∀ n, c.scopeOf? n ≠ none → c'.scopeOf? n ≠ none

namespace Context.Onward

variable {c c1 c' : Context}

lemma of_eq (htypes : c'.types = c.types) (hnodes : c'.nodeTypes = c.nodeTypes)
    (hscopes : c'.scopes.size = c.scopes.size) (hof : c'.nodeScopes = c.nodeScopes) :
    c.Onward c' :=
  ⟨by rw [htypes], hscopes.ge, fun n x h => by rwa [nodeType?, hnodes],
    fun n h => by rwa [scopeOf?, hof]⟩

lemma trans (h : c.Onward c1) (h' : c1.Onward c') : c.Onward c' :=
  ⟨h.size_le.trans h'.size_le, h.scopes_le.trans h'.scopes_le,
    fun n x hx => h'.nodeType n x (h.nodeType n x hx), fun n hn => h'.scopeOf n (h.scopeOf n hn)⟩

end Context.Onward

namespace Check

variable {c : Context}

/-- What adding a symbol leaves: the context as it was, or with one scope changed. -/
lemma addSymbol_cases (symbol : Symbol) (unique : Bool) (l : Location) (c : Context) :
    ((addSymbol symbol unique l).outcome c).2 = c ∨ ∃ id sc sc', c.scope? id = some sc ∧
      sc.insert? symbol unique = some sc' ∧
        ((addSymbol symbol unique l).outcome c).2 = c.modifyScope id fun _ => sc' := by
  unfold addSymbol
  rw [outcome_bind, outcome_get]
  dsimp only
  split
  · next id hid =>
    split
    · next sc' hsc =>
      obtain ⟨sc, hsc, hinsert⟩ := Option.bind_eq_some_iff.mp hsc
      exact .inr ⟨id, sc, sc', hsc, hinsert, rfl⟩
    · exact .inl rfl
  · exact .inl rfl

lemma outcome_declare (name : String) (kind : SymbolKind) (d : NodeId) (l : Location) :
    (declare name kind d l).outcome c =
      (addSymbol ⟨name, kind, c.currentOrRoot, d⟩
        (c.currentKind?.any fun k => !k.allowsOverwrite) l).outcome c := by
  rw [declare, outcome_bind, outcome_get]

lemma wellFormed_addSymbol (hc : c.WellFormed) (symbol : Symbol) (unique : Bool) (l : Location) :
    ((addSymbol symbol unique l).outcome c).2.WellFormed := by
  rcases addSymbol_cases symbol unique l c with h | ⟨id, sc, sc', hsc, hinsert, h⟩
  · rw [h]
    exact hc
  · rw [h]
    refine hc.modifyScope fun sc0 hsc0 => ?_
    obtain rfl := Option.some.inj (hsc.symm.trans hsc0)
    exact Scope.nodup_insert? (hc.symbols id sc hsc) hinsert

lemma onward_addSymbol (symbol : Symbol) (unique : Bool) (l : Location) (c : Context) :
    c.Onward ((addSymbol symbol unique l).outcome c).2 := by
  rcases addSymbol_cases symbol unique l c with h | ⟨id, sc, sc', -, -, h⟩
  · rw [h]
    exact .of_eq rfl rfl rfl rfl
  · rw [h]
    exact .of_eq rfl rfl (by simp [Context.modifyScope]) rfl

end Check

namespace Op

variable {c c' : Context} {op : Op}

/-- **Every operation keeps a context well formed**, also one that ends in a fault. -/
lemma wellFormed (hc : c.WellFormed) (h : op.Valid c) : (op.run.outcome c).2.WellFormed := by
  cases op with
  | openScope kind n => exact hc.openScope kind n
  | reopenScope n l =>
    rw [run, outcome_map, Check.reopenScope, outcome_bind, outcome_get]
    dsimp only [Context.reopenScope?]
    rcases hn : c.scopeOf? n with _ | id
    · exact hc
    · exact hc.restack (List.forall_mem_cons.mpr ⟨hc.nodeScopes n id hn, hc.stack⟩)
  | closeScope => exact hc.closeScope
  | enter mode kind n l =>
    rw [run, outcome_map, ScopeMode.outcome_enter]
    split
    · exact hc
    · split
      · split
        · next id hn =>
          exact hc.restack (List.forall_mem_cons.mpr ⟨hc.nodeScopes n id hn, hc.stack⟩)
        · exact hc
      · exact hc.openScope kind n
  | leave mode =>
    cases mode with
    | skip => exact hc
    | fresh | reopen => exact hc.closeScope
  | setStack stack => exact hc.restack h
  | addSymbol symbol unique l =>
    rw [run, outcome_map]
    exact Check.wellFormed_addSymbol hc symbol unique l
  | declare name kind d l =>
    rw [run, outcome_map, Check.outcome_declare]
    exact Check.wellFormed_addSymbol hc _ _ l
  | markReturn id => exact hc.modifyScope fun sc hsc => ⟨rfl, rfl, hc.symbols id sc hsc⟩
  | alloc shape => exact hc.alloc h
  | set x shape => exact hc.set x h.2
  | assign target source => exact hc.assign target source
  | slotOf n => exact hc.slotOf n
  | bind n source => exact hc.bind n h
  | setShape n shape => exact hc.setShape n h
  | setFlow n g =>
    exact ⟨hc.scopes, hc.symbols, hc.stack, hc.nodeScopes, hc.nodeTypes,
      fun x hx => ⟨(hc.slots x hx).handles, (hc.slots x hx).scope⟩⟩

lemma onward (op : Op) (c : Context) : c.Onward (op.run.outcome c).2 := by
  have hopen : ∀ kind n, c.Onward (c.openScope kind n).2 := by
    refine fun kind n => ⟨le_rfl, by simp [Context.openScope], fun _ _ h => h, fun m hm => ?_⟩
    change (c.nodeScopes.insert n c.scopes.size).get? m ≠ none
    rw [Table.get?_insert]
    split
    · simp
    · exact hm
  have hretype : ∀ {c' : Context}, Context.Grows (fun _ => True) c c' →
      c'.scopes = c.scopes ∧ c'.nodeScopes = c.nodeScopes → c.Onward c' := fun hg h =>
    ⟨hg.size_le, by rw [h.1], hg.nodeType, fun n hn => by rwa [Context.scopeOf?, h.2]⟩
  cases op with
  | openScope kind n => exact hopen kind n
  | reopenScope n l =>
    rw [run, outcome_map, Check.reopenScope, outcome_bind, outcome_get]
    dsimp only [Context.reopenScope?]
    rcases c.scopeOf? n with _ | id <;> exact .of_eq rfl rfl rfl rfl
  | enter mode kind n l =>
    rw [run, outcome_map, ScopeMode.outcome_enter]
    split
    · exact .of_eq rfl rfl rfl rfl
    · split
      · split <;> exact .of_eq rfl rfl rfl rfl
      · exact hopen kind n
  | leave mode =>
    obtain ⟨htypes, hnodes, hscopes⟩ := mode.leave_frame c
    refine .of_eq htypes hnodes (congrArg Array.size hscopes) ?_
    cases mode <;> rfl
  | closeScope | setStack | setFlow => exact .of_eq rfl rfl rfl rfl
  | addSymbol symbol unique l =>
    rw [run, outcome_map]
    exact Check.onward_addSymbol symbol unique l c
  | declare name kind d l =>
    rw [run, outcome_map, Check.outcome_declare]
    exact Check.onward_addSymbol _ _ l c
  | markReturn id =>
    exact .of_eq rfl rfl
      (by simp [run, outcome_map, Context.markReturn, Context.modifyScope]) rfl
  | alloc shape => exact hretype (Context.grows_alloc trivial) ⟨rfl, rfl⟩
  | set x shape => exact hretype (Context.grows_set x trivial) ⟨rfl, rfl⟩
  | assign target source => exact hretype (Context.grows_assign target source) ⟨rfl, rfl⟩
  | slotOf n =>
    refine hretype (Context.grows_slotOf n) ?_
    change (c.slotOf n).2.scopes = c.scopes ∧ (c.slotOf n).2.nodeScopes = c.nodeScopes
    unfold Context.slotOf
    split <;> exact ⟨rfl, rfl⟩
  | bind n source =>
    refine hretype (Context.grows_bind n source) ?_
    change (c.bind n source).2.scopes = c.scopes ∧ (c.bind n source).2.nodeScopes = c.nodeScopes
    unfold Context.bind
    split <;> exact ⟨rfl, rfl⟩
  | setShape n shape =>
    refine hretype (Context.grows_setShape trivial) ?_
    change (c.setShape n shape).2.scopes = c.scopes ∧
      (c.setShape n shape).2.nodeScopes = c.nodeScopes
    unfold Context.setShape
    split <;> exact ⟨rfl, rfl⟩

/-- **What an operation returns exists.** -/
lemma exists_of_run (hc : c.WellFormed) (h : op.Valid c) {handle : Handle}
    (hr : Runs op.run c handle c') : handle.Exists c' := by
  have hslot : ∀ {f : Context → Slot × Context} {n : NodeId} {c' : Context} {handle : Handle},
      (f c).2.WellFormed → (∀ {x c'}, f c = (x, c') → c'.nodeType? n = some x) →
      Runs (Handle.slot <$> (modifyGet f : Check Slot)) c handle c' → handle.Exists c' := by
    intro f n c' handle hwf hn hr
    simp only [runs_map, runs_modifyGet] at hr
    obtain ⟨x, hx, rfl⟩ := hr
    rw [hx] at hwf
    exact hwf.nodeTypes n x (hn hx)
  have hnone : ∀ {x : Check Unit} {c' : Context} {handle : Handle},
      Runs ((fun _ => Handle.nothing) <$> x) c handle c' → handle.Exists c' := by
    intro x c' handle hr
    obtain ⟨_, -, rfl⟩ := runs_map.mp hr
    trivial
  cases op with
  | openScope kind n =>
    simp only [run, runs_map, runs_modifyGet] at hr
    obtain ⟨id, hid, rfl⟩ := hr
    cases hid
    simp [Handle.Exists]
  | reopenScope n l =>
    simp only [run, Check.reopenScope, Context.reopenScope?, runs_map, runs_bind, runs_get] at hr
    obtain ⟨id, ⟨_, _, ⟨rfl, rfl⟩, hr⟩, rfl⟩ := hr
    rcases hn : c.scopeOf? n with _ | id'
    · simp [hn] at hr
    · simp only [hn, Option.map_some, runs_bind, runs_set, runs_pure] at hr
      obtain ⟨_, _, rfl, rfl, rfl⟩ := hr
      exact hc.nodeScopes n id' hn
  | alloc shape =>
    simp only [run, Check.alloc, runs_map, runs_modifyGet] at hr
    obtain ⟨x, hx, rfl⟩ := hr
    cases hx
    simp [Handle.Exists]
  | slotOf n => exact hslot (hc.slotOf n) Context.nodeType?_of_slotOf hr
  | bind n source => exact hslot (hc.bind n h) Context.nodeType?_of_bind hr
  | setShape n shape => exact hslot (hc.setShape n h) Context.nodeType?_of_setShape hr
  | closeScope | enter | leave | setStack | addSymbol | declare | markReturn | set | assign
  | setFlow => exact hnone hr

end Op

/-! ### Steps -/

namespace Context

variable {c c' c1 c2 : Context}

/-- One operation that is given existing handles. -/
def Step (c c' : Context) : Prop :=
  ∃ op : Op, op.Valid c ∧ (op.run.outcome c).2 = c'

/-- Operations one after the other. -/
def Steps : Context → Context → Prop :=
  Relation.ReflTransGen Step

lemma Steps.onward (h : Steps c c') : c.Onward c' := by
  induction h with
  | refl => exact .of_eq rfl rfl rfl rfl
  | tail _ hstep ih =>
    obtain ⟨op, -, rfl⟩ := hstep
    exact ih.trans (op.onward _)

/-- **What one operation keeps, a sequence of them keeps.** -/
lemma Steps.wellFormed (h : Steps c c') (hc : c.WellFormed) : c'.WellFormed := by
  induction h with
  | refl => exact hc
  | tail _ hstep ih =>
    obtain ⟨op, hvalid, rfl⟩ := hstep
    exact op.wellFormed ih hvalid

end Context

end Sema
