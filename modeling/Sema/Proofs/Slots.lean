import Mathlib.Tactic.Common
import Sema.Context.Basic

/-!
The slots of nodes: what the four ways to give a node a type do to it, to the other nodes and to
the store.
-/

namespace Sema

namespace TypeStore

variable {k s : Slot}

lemma get_eq_unknown (t : TypeStore) {x : Slot} (h : t.size ≤ x) : t.get x = .unknown := by
  have hx : t.slots.size ≤ x := h
  simp [get, hx]

lemma set_of_size_le (t : TypeStore) (shape : Shape) (h : t.size ≤ s) : t.set s shape = t := by
  have hs : t.slots.size ≤ s := h
  simp [set, Array.modify, Array.modifyM, Nat.not_lt.mpr hs]

/-- A slot that is not the one that is set keeps its contents. -/
lemma get_set_of_ne (t : TypeStore) (shape : Shape) (h : k ≠ s) :
    (t.set s shape).get k = t.get k := by
  by_cases hs : s < t.size
  · rw [get_set t s k shape hs, if_neg h]
  · rw [set_of_size_le t shape (Nat.le_of_not_lt hs)]

lemma get_assign_of_ne (t : TypeStore) {target source : Slot} (h : k ≠ target) :
    (t.assign target source).get k = t.get k := by
  unfold assign
  split
  · rfl
  · exact get_set_of_ne t _ h

lemma get_alloc_of_lt (t : TypeStore) (shape : Shape) (h : k < t.size) :
    (t.alloc shape).2.get k = t.get k := by
  rw [get_alloc, if_neg (Nat.ne_of_lt h)]

end TypeStore

namespace Context

variable {c : Context} {n k : NodeId} {x : Slot} {shape : Shape} {c' : Context}

lemma scope?_eq (c : Context) (id : ScopeId) : c.scope? id = c.scopes[id]? := rfl

lemma scope?_openScope {kind : ScopeKind} {id : ScopeId} : (c.openScope kind n).2.scope? id =
    if id = c.scopes.size then
      some { id := c.scopes.size, parent := c.current?, kind, node := n }
    else c.scope? id := by
  simp only [scope?_eq, openScope, Array.getElem?_push]

lemma scope?_modifyScope {id k : ScopeId} {f : Scope → Scope} :
    (c.modifyScope id f).scope? k = if id = k then (c.scope? k).map f else c.scope? k := by
  simp only [scope?_eq, modifyScope, Access.modify_usual, Array.getElem?_modify]

lemma scope?_lt {id : ScopeId} {sc : Scope} (h : c.scope? id = some sc) : id < c.scopes.size :=
  (Array.getElem?_eq_some_iff.mp h).1

/-! ### A node that has a slot -/

lemma slotOf_of_some (h : c.nodeType? n = some x) : c.slotOf n = (x, c) := by
  simp [slotOf, h]

lemma bind_of_some (h : c.nodeType? n = some x) (source : Slot) :
    c.bind n source = (x, c.assign x source) := by
  simp [bind, h]

lemma setShape_of_some (h : c.nodeType? n = some x) (shape : Shape) :
    c.setShape n shape = (x, { c with types := c.types.set x shape }) := by
  simp [setShape, h]

/-! ### A node that has none -/

lemma slotOf_of_none (h : c.nodeType? n = none) : c.slotOf n = c.allocFor n .unknown := by
  simp [slotOf, h]

lemma bind_of_none (h : c.nodeType? n = none) (source : Slot) :
    c.bind n source = (source, { c with nodeTypes := c.nodeTypes.insert n source }) := by
  simp [bind, h]

lemma setShape_of_none (h : c.nodeType? n = none) (shape : Shape) :
    c.setShape n shape = c.allocFor n shape := by
  simp [setShape, h]

lemma nodeType?_insert (c : Context) (n k : NodeId) (x : Slot) :
    nodeType? { c with nodeTypes := c.nodeTypes.insert n x } k =
      if k = n then some x else c.nodeType? k :=
  Table.get?_insert _ _ _ _

/-- A slot for an element, then one for the node. -/
lemma setShape_alloc {element : Shape} (hn : c.nodeType? n = none)
    (h : (c.alloc element).2.setShape n shape = (x, c')) :
    x = c.types.size + 1 ∧ c'.types.size = c.types.size + 2 ∧ c'.types.get x = shape ∧
      c'.types.get c.types.size = element ∧
      ∀ z, z < c.types.size → c'.types.get z = c.types.get z := by
  have hn' : (c.alloc element).2.nodeType? n = none := hn
  rw [setShape_of_none hn'] at h
  cases h
  have hsize : (c.alloc element).2.types.size = c.types.size + 1 := TypeStore.size_alloc _ _
  refine ⟨hsize, ?_, ?_, ?_, ?_⟩
  · exact (TypeStore.size_alloc _ _).trans (congrArg (· + 1) hsize)
  · exact (TypeStore.get_alloc _ _ _).trans (if_pos rfl)
  · rw [TypeStore.get_alloc_of_lt _ _ (by rw [hsize]; exact Nat.lt_succ_self _)]
    exact (TypeStore.get_alloc _ _ _).trans (if_pos rfl)
  · intro z hz
    rw [TypeStore.get_alloc_of_lt _ _ (by rw [hsize]; exact Nat.lt_succ_of_lt hz)]
    exact TypeStore.get_alloc_of_lt _ _ hz

/-! ### In either case the node has the slot that is given back -/

lemma nodeType?_of_slotOf (h : c.slotOf n = (x, c')) : c'.nodeType? n = some x := by
  rcases hn : c.nodeType? n with _ | y
  · rw [slotOf_of_none hn] at h
    cases h
    exact Table.get?_insert_self _ _ _
  · rw [slotOf_of_some hn] at h
    cases h
    exact hn

lemma nodeType?_of_bind {source : Slot} (h : c.bind n source = (x, c')) :
    c'.nodeType? n = some x := by
  rcases hn : c.nodeType? n with _ | y
  · rw [bind_of_none hn] at h
    cases h
    exact Table.get?_insert_self _ _ _
  · rw [bind_of_some hn] at h
    cases h
    exact hn

lemma nodeType?_of_setShape (h : c.setShape n shape = (x, c')) : c'.nodeType? n = some x := by
  rcases hn : c.nodeType? n with _ | y
  · rw [setShape_of_none hn] at h
    cases h
    exact Table.get?_insert_self _ _ _
  · rw [setShape_of_some hn] at h
    cases h
    exact hn

end Context

end Sema
