import Mathlib.Data.List.Find
import Sema.Proofs.OpenScopes
import Sema.Proofs.StartingState
import Sema.Syntax.Draft

/-!
The tree of scopes. The scopes that an analysis leaves are those of the program, of its classes,
functions and enums, and of the blocks in function bodies, one for each and inside each other as
in the text. The first walk opens the scopes of declarations and the second one those of blocks,
so that a scope is described here by nodes, not by its number.
-/

namespace Sema

open Sema.Action Context

variable {p : Program}

/-! ### Nodes that have scopes -/

/-- A scope as the text has it: the node that it belongs to, and the node of the scope around. -/
structure Frame where
  node : NodeId
  kind : ScopeKind
  outer : Option NodeId
  deriving DecidableEq, Repr

mutual

/-- The blocks in a statement, inside the scope of the node `outer`. -/
def Stmt.frames (outer : NodeId) : Stmt → List Frame
  | .expression .. | .var _ | .ret .. => []
  | .branch _ _ yes no => yes.frames outer ++ match no with
    | some other => other.frames outer
    | none => []
  | .loop _ _ body => body.frames outer
  | .block b => b.frames outer

def Stmt.framesAll (outer : NodeId) : List Stmt → List Frame
  | [] => []
  | s :: rest => s.frames outer ++ Stmt.framesAll outer rest

def Block.frames (outer : NodeId) : Block → List Frame
  | ⟨node, statements⟩ => ⟨node.id, .body, some outer⟩ :: Stmt.framesAll node.id statements

end

mutual

/-- Whether there is a return statement, at any depth. -/
def Stmt.returns : Stmt → Bool
  | .expression .. | .var _ => false
  | .ret .. => true
  | .branch _ _ yes no => yes.returns || match no with
    | some other => other.returns
    | none => false
  | .loop _ _ body => body.returns
  | .block b => b.returns

def Stmt.anyReturns : List Stmt → Bool
  | [] => false
  | s :: rest => s.returns || Stmt.anyReturns rest

def Block.returns : Block → Bool
  | ⟨_, statements⟩ => Stmt.anyReturns statements

end

mutual

/-- A class, a function or an enum, and the members of a class, inside the scope of the node
`outer`. -/
def Decl.frames (outer : NodeId) : Decl → List Frame
  | .object c => c.frames outer
  | .function f => [⟨f.id, .function, some outer⟩]
  | .enum e => [⟨e.id, .enum, some outer⟩]
  | .var _ | .foreign _ => []

def ClassDecl.frames (outer : NodeId) : ClassDecl → List Frame
  | ⟨node, _, _, members⟩ => ⟨node.id, .object, some outer⟩ :: Decl.framesAll node.id members

def Decl.framesAll (outer : NodeId) : List Decl → List Frame
  | [] => []
  | d :: rest => d.frames outer ++ Decl.framesAll outer rest

end

namespace Decl

/-- The blocks of a function. -/
def bodyFrames : Decl → List Frame
  | .function f => f.body.frames f.id
  | .object _ | .var _ | .enum _ | .foreign _ => []

/-- The function, if it has a return statement. -/
def returning : Decl → List NodeId
  | .function f => if f.body.returns then [f.id] else []
  | .object _ | .var _ | .enum _ | .foreign _ => []

end Decl

namespace Program

/-- All nodes that have scopes: declarations first, then the blocks of functions. -/
def frames (p : Program) : List Frame :=
  ⟨p.id, .program, none⟩ ::
    (Decl.framesAll p.id p.declarations ++ p.allDecls.flatMap Decl.bodyFrames)

/-- The functions with a return statement. -/
def returning (p : Program) : List NodeId :=
  p.allDecls.flatMap Decl.returning

end Program

mutual

lemma Stmt.frames_sublist (outer : NodeId) :
    ∀ s : Stmt, ((s.frames outer).map (·.node)).Sublist s.nodes
  | .expression .. | .var _ | .ret .. => List.nil_sublist _
  | .branch node test yes none => by
    rw [Stmt.frames, Stmt.nodes, List.append_nil, List.append_nil]
    exact ((Block.frames_sublist outer yes).trans (List.sublist_append_right _ _)).cons _
  | .branch node test yes (some other) => by
    rw [Stmt.frames, Stmt.nodes, List.map_append]
    exact (((Block.frames_sublist outer yes).append (Block.frames_sublist outer other)).trans
      (List.sublist_append_right _ _)).cons _
  | .loop node test body =>
    ((Block.frames_sublist outer body).trans (List.sublist_append_right _ _)).cons _
  | .block b => Block.frames_sublist outer b

lemma Stmt.framesAll_sublist (outer : NodeId) :
    ∀ ss : List Stmt, ((Stmt.framesAll outer ss).map (·.node)).Sublist (Stmt.nodesAll ss)
  | [] => List.nil_sublist _
  | s :: rest => by
    rw [Stmt.framesAll, Stmt.nodesAll, List.map_append]
    exact (Stmt.frames_sublist outer s).append (Stmt.framesAll_sublist outer rest)

lemma Block.frames_sublist (outer : NodeId) :
    ∀ b : Block, ((b.frames outer).map (·.node)).Sublist b.nodes
  | ⟨node, statements⟩ => (Stmt.framesAll_sublist node.id statements).cons_cons _

end

mutual

lemma Decl.frames_sublist (outer : NodeId) :
    ∀ d : Decl, ((d.frames outer).map (·.node)).Sublist (d.all.flatMap Decl.signature)
  | .object ⟨node, _, _, members⟩ => by
    refine List.Sublist.cons_cons _ ?_
    exact (Decl.framesAll_sublist node.id members).trans (List.sublist_append_right _ _)
  | .function f => by
    rw [Decl.frames, Decl.all, List.flatMap_singleton]
    exact (List.nil_sublist _).cons_cons _
  | .enum e => by
    rw [Decl.frames, Decl.all, List.flatMap_singleton]
    exact (List.nil_sublist _).cons_cons _
  | .var _ | .foreign _ => List.nil_sublist _

lemma Decl.framesAll_sublist (outer : NodeId) : ∀ ds : List Decl,
    ((Decl.framesAll outer ds).map (·.node)).Sublist ((Decl.allOf ds).flatMap Decl.signature)
  | [] => List.nil_sublist _
  | d :: rest => by
    rw [Decl.framesAll, Decl.allOf, List.map_append, List.flatMap_append]
    exact (Decl.frames_sublist outer d).append (Decl.framesAll_sublist outer rest)

end

lemma Decl.bodyFrames_sublist (d : Decl) : (d.bodyFrames.map (·.node)).Sublist d.inside := by
  cases d with
  | function f => exact Block.frames_sublist f.id f.body
  | object _ | var _ | enum _ | foreign _ => exact List.nil_sublist _

/-- No node has two frames. -/
lemma Program.FullyNumbered.frames_nodup (h : p.FullyNumbered) : (p.frames.map (·.node)).Nodup := by
  have hbodies : ∀ ds : List Decl,
      ((ds.flatMap Decl.bodyFrames).map (·.node)).Sublist (ds.flatMap Decl.inside) := by
    intro ds
    induction ds with
    | nil => exact List.nil_sublist _
    | cons d ds ih =>
      rw [List.flatMap_cons, List.flatMap_cons, List.map_append]
      exact d.bodyFrames_sublist.append ih
  have hsub : (p.frames.map (·.node)).Sublist (p.id :: p.nodes) := by
    rw [Program.frames, List.map_cons, List.map_append]
    exact (((Decl.framesAll_sublist p.id p.declarations).append (hbodies p.allDecls)).trans
      (List.sublist_append_left _ _)).cons_cons _
  exact (List.nodup_cons.mpr ⟨h.root, h.nodup⟩).sublist hsub

/-! ### The frames of a context -/

/-- A scope without its symbols. -/
def Scope.bare (sc : Scope) : Scope :=
  { sc with symbols := [] }

namespace Context

variable {c c1 c' : Context} {id k : ScopeId} {n : NodeId} {fs gs : List Frame}
  {ms ns : List NodeId} {kind : ScopeKind} {sc : Scope}

/-- The node that a scope was opened for. -/
def nodeAt? (c : Context) (id : ScopeId) : Option NodeId :=
  (c.scope? id).map (·.node)

def frameOf (c : Context) (sc : Scope) : Frame :=
  ⟨sc.node, sc.kind, sc.parent.bind c.nodeAt?⟩

/-- What the scopes were opened for, in order. -/
def frames (c : Context) : List Frame :=
  c.scopes.toList.map c.frameOf

/-- A return statement was found in the function. -/
def Returning (c : Context) (n : NodeId) : Prop :=
  ∃ id sc, c.scope? id = some sc ∧ sc.node = n ∧ sc.returns = true

/-- The node of the innermost open scope. -/
def currentNode? (c : Context) : Option NodeId :=
  c.current?.bind c.nodeAt?

/-- Each scope is the one of its node and is younger than the one around it, and no scope is
mentioned that is not there. -/
structure Tidy (c : Context) : Prop where
  indexed : ∀ id sc, c.scope? id = some sc → c.scopeOf? sc.node = some id
  nested : ∀ id sc k, c.scope? id = some sc → sc.parent = some k → k < id
  open_lt : ∀ id ∈ c.stack, id < c.scopes.size

lemma Tidy.parent_lt (h : c.Tidy) (id : ScopeId) (sc : Scope) (k : ScopeId)
    (hsc : c.scope? id = some sc) (hk : sc.parent = some k) : k < c.scopes.size :=
  (h.nested id sc k hsc hk).trans (scope?_lt hsc)

lemma length_frames (c : Context) : c.frames.length = c.scopes.size := by
  simp [frames]

lemma getElem?_frames (c : Context) (id : ScopeId) : c.frames[id]? =
    (c.scope? id).map c.frameOf := by
  simp [frames, scope?]

lemma nodeAt?_eq (c : Context) (id : ScopeId) : c.nodeAt? id = c.frames[id]?.map (·.node) := by
  rw [getElem?_frames, Option.map_map]
  rfl

lemma scopeKind?_eq (c : Context) (id : ScopeId) :
    c.scopeKind? id = c.frames[id]?.map (·.kind) := by
  rw [getElem?_frames, Option.map_map]
  rfl

/-- The scope of a frame is that of its node. -/
lemma Tidy.exists_scope (h : c.Tidy) {f : Frame} (hf : f ∈ c.frames) :
    ∃ id sc, c.scopeOf? f.node = some id ∧ c.scope? id = some sc ∧ c.frameOf sc = f := by
  obtain ⟨id, hid⟩ := List.getElem?_of_mem hf
  rw [getElem?_frames] at hid
  obtain ⟨sc, hsc, rfl⟩ := Option.map_eq_some_iff.mp hid
  exact ⟨id, sc, h.indexed id sc hsc, hsc, rfl⟩

/-- A step added the frames `fs`, and found return statements in the functions `ms`. -/
structure Adds (fs : List Frame) (ms : List NodeId) (c c' : Context) : Prop where
  tidy : c'.Tidy
  stack : c'.stack = c.stack
  frames : c'.frames = c.frames ++ fs
  returning : ∀ n, c'.Returning n ↔ c.Returning n ∨ n ∈ ms

namespace Adds

lemma trans (h1 : Adds fs ms c c1) (h2 : Adds gs ns c1 c') : Adds (fs ++ gs) (ms ++ ns) c c' := by
  refine ⟨h2.tidy, h2.stack.trans h1.stack, ?_, fun n => ?_⟩
  · rw [h2.frames, h1.frames, List.append_assoc]
  · rw [h2.returning, h1.returning, List.mem_append, or_assoc]

/-- Nothing more is added. -/
lemma after (h1 : Adds fs ms c c1) (h2 : Adds [] [] c1 c') : Adds fs ms c c' := by
  have h := h1.trans h2
  rwa [List.append_nil, List.append_nil] at h

lemma congr (h : Adds fs ms c c') (hfs : fs = gs) (hms : ∀ n, n ∈ ms ↔ n ∈ ns) :
    Adds gs ns c c' :=
  { h with
    frames := hfs ▸ h.frames
    returning := fun n => (h.returning n).trans (or_congr_right (hms n)) }

lemma getElem?_frames (h : Adds fs ms c c') (hid : id < c.scopes.size) :
    c'.frames[id]? = c.frames[id]? := by
  rw [h.frames, List.getElem?_append_left (by rwa [length_frames])]

/-- Frames that are still to come are new. -/
lemma nodup {gs : List Frame} (h : Adds fs ms c c')
    (hnd : (c.frames.map (·.node) ++ (fs ++ gs).map (·.node)).Nodup) :
    (c'.frames.map (·.node) ++ gs.map (·.node)).Nodup := by
  rwa [h.frames, List.map_append, List.append_assoc, ← List.map_append]

end Adds

lemma nodup_left
    (h : (c.frames.map (·.node) ++ (fs ++ gs).map (·.node)).Nodup) :
    (c.frames.map (·.node) ++ fs.map (·.node)).Nodup := by
  rw [List.map_append, ← List.append_assoc] at h
  exact h.of_append_left

/-- Scopes got symbols at most. -/
structure SameTree (c c' : Context) : Prop where
  stack : c'.stack = c.stack
  scope : ∀ id, (c'.scope? id).map Scope.bare = (c.scope? id).map Scope.bare
  nodeScopes : c'.nodeScopes = c.nodeScopes

namespace SameTree

lemma of_same (h : SameScopes c c') : SameTree c c' :=
  ⟨h.stack, fun id => by rw [h.scope?], h.nodeScopes⟩

lemma trans (h1 : SameTree c c1) (h2 : SameTree c1 c') : SameTree c c' :=
  ⟨h2.stack.trans h1.stack, fun id => (h2.scope id).trans (h1.scope id),
    h2.nodeScopes.trans h1.nodeScopes⟩

/-- A scope comes from an old one that differs in symbols at most. -/
lemma exists_old (h : SameTree c c') (hsc : c'.scope? id = some sc) :
    ∃ old, c.scope? id = some old ∧ old.node = sc.node ∧ old.parent = sc.parent ∧
      old.returns = sc.returns := by
  have hmap := h.scope id
  rw [hsc] at hmap
  obtain ⟨old, hold, hbare⟩ := Option.map_eq_some_iff.mp hmap.symm
  simp only [Scope.bare, Scope.mk.injEq] at hbare
  exact ⟨old, hold, hbare.2.2.2.1, hbare.2.1, hbare.2.2.2.2.2⟩

lemma symm (h : SameTree c c') : SameTree c' c :=
  ⟨h.stack.symm, fun id => (h.scope id).symm, h.nodeScopes.symm⟩

lemma size_eq (h : SameTree c c') : c'.scopes.size = c.scopes.size := by
  have hlt : ∀ {a b : Context}, SameTree a b → ∀ id, id < b.scopes.size → id < a.scopes.size := by
    intro a b h id hid
    have hsc : b.scope? id = some b.scopes[id] := by simp [scope?, hid]
    obtain ⟨old, hold, -⟩ := h.exists_old hsc
    exact scope?_lt hold
  exact Nat.le_antisymm (Nat.le_of_not_lt fun hl => Nat.lt_irrefl _ (hlt h _ hl))
    (Nat.le_of_not_lt fun hl => Nat.lt_irrefl _ (hlt h.symm _ hl))

lemma nodeAt? (h : SameTree c c') : c'.nodeAt? = c.nodeAt? := by
  funext id
  have hmap := congrArg (Option.map (·.node)) (h.scope id)
  rw [Option.map_map, Option.map_map] at hmap
  exact hmap

lemma frames (h : SameTree c c') : c'.frames = c.frames := by
  have hframe : c'.frameOf = c.frameOf := by
    funext sc
    rw [frameOf, frameOf, h.nodeAt?]
  refine List.ext_getElem? fun id => ?_
  have hmap := congrArg (Option.map c.frameOf) (h.scope id)
  rw [Option.map_map, Option.map_map] at hmap
  rw [getElem?_frames, getElem?_frames, hframe]
  exact hmap

lemma returning (h : SameTree c c') : c'.Returning n → c.Returning n := by
  rintro ⟨id, sc, hsc, rfl, hret⟩
  obtain ⟨old, hold, hnode, -, hreturns⟩ := h.exists_old hsc
  exact ⟨id, old, hold, hnode, hreturns.trans hret⟩

lemma tidy (h : SameTree c c') (ht : c.Tidy) : c'.Tidy := by
  refine ⟨fun id sc hsc => ?_, fun id sc k hsc hk => ?_, ?_⟩
  · obtain ⟨old, hold, hnode, -, -⟩ := h.exists_old hsc
    rw [scopeOf?, h.nodeScopes, ← hnode]
    exact ht.indexed id old hold
  · obtain ⟨old, hold, -, hparent, -⟩ := h.exists_old hsc
    exact ht.nested id old k hold (hparent.trans hk)
  · rw [h.stack, h.size_eq]
    exact ht.open_lt

lemma adds (h : SameTree c c') (ht : c.Tidy) : Adds [] [] c c' := by
  refine ⟨h.tidy ht, h.stack, by rw [h.frames, List.append_nil], fun n => ?_⟩
  simpa using Iff.intro h.returning h.symm.returning

end SameTree

instance : Std.Refl SameTree := ⟨fun _ => ⟨rfl, fun _ => rfl, rfl⟩⟩

instance : IsTrans Context SameTree := ⟨fun _ _ _ => SameTree.trans⟩

instance : Collects (fun _ => True) SameTree where
  plain _ := trivial
  alloc hp := .of_same (Retypes.alloc hp)
  copy y := .of_same (Retypes.copy y)
  assign x y := .of_same (Retypes.assign x y)
  slotOf n := .of_same (Retypes.slotOf n)
  bind n x := .of_same (Retypes.bind n x)
  setShape hp := .of_same (Retypes.setShape hp)
  set _ _ := ⟨rfl, fun _ => rfl, rfl⟩
  declare {c id sc sc' _ _} hid h := by
    obtain ⟨symbols, rfl⟩ := Scope.insert?_eq h
    refine ⟨rfl, fun k => ?_, rfl⟩
    rw [scope?_modifyScope]
    split
    · next heq =>
      rw [← heq, hid]
      rfl
    · rfl

/-! ### Opening and closing -/

/-- The scopes from before do not notice a new one. -/
lemma nodeAt?_openScope (h : id < c.scopes.size) :
    (c.openScope kind n).2.nodeAt? id = c.nodeAt? id := by
  rw [nodeAt?, scope?_openScope, if_neg h.ne]
  rfl

lemma Tidy.current_lt (h : c.Tidy) (hk : c.current? = some k) : k < c.scopes.size :=
  h.open_lt k (List.mem_of_mem_head? hk)

lemma Tidy.frames_openScope (h : c.Tidy) :
    (c.openScope kind n).2.frames = c.frames ++ [⟨n, kind, c.currentNode?⟩] := by
  have hframe : ∀ id sc, c.scope? id = some sc →
      (c.openScope kind n).2.frameOf sc = c.frameOf sc := by
    intro id sc hsc
    rcases hp : sc.parent with _ | k
    · simp [frameOf, hp]
    · simp [frameOf, hp, nodeAt?_openScope (h.parent_lt id sc k hsc hp)]
  have hold : c.scopes.toList.map (c.openScope kind n).2.frameOf = c.frames := by
    refine List.map_congr_left fun sc hsc => ?_
    obtain ⟨id, hid⟩ := List.getElem?_of_mem hsc
    exact hframe id sc (by simpa [scope?] using hid)
  have hnew : (c.openScope kind n).2.frameOf
      { id := c.scopes.size, parent := c.current?, kind, node := n } =
        ⟨n, kind, c.currentNode?⟩ := by
    rcases hk : c.current? with _ | k
    · simp [frameOf, currentNode?, hk]
    · simp [frameOf, currentNode?, hk, nodeAt?_openScope (h.current_lt hk)]
  rw [Context.frames, ← hold, ← hnew]
  simp [openScope]

lemma returning_openScope {m : NodeId} : (c.openScope kind n).2.Returning m ↔ c.Returning m := by
  constructor
  · rintro ⟨id, sc, hsc, rfl, hret⟩
    rw [scope?_openScope] at hsc
    split at hsc
    · cases hsc
      cases hret
    · exact ⟨id, sc, hsc, rfl, hret⟩
  · rintro ⟨id, sc, hsc, rfl, hret⟩
    have hlt : id < c.scopes.size := scope?_lt hsc
    refine ⟨id, sc, ?_, rfl, hret⟩
    rw [scope?_openScope, if_neg hlt.ne, hsc]

/-- A new scope for a node that has none. -/
lemma Tidy.openScope (h : c.Tidy) (hn : n ∉ c.frames.map (·.node)) :
    (c.openScope kind n).2.Tidy := by
  have hsize : (c.openScope kind n).2.scopes.size = c.scopes.size + 1 := by simp [Context.openScope]
  have hscopeOf : ∀ m, (c.openScope kind n).2.scopeOf? m =
      if m = n then some c.scopes.size else c.scopeOf? m :=
    fun m => Table.get?_insert _ _ _ _
  refine ⟨fun id sc hsc => ?_, fun id sc k hsc hk => ?_, fun id hid => ?_⟩
  · rw [scope?_openScope] at hsc
    rw [hscopeOf]
    split at hsc
    · next heq =>
      cases hsc
      rw [if_pos rfl, heq]
    · have hne : sc.node ≠ n := by
        rintro rfl
        refine hn (List.mem_map.mpr ⟨c.frameOf sc, ?_, rfl⟩)
        exact List.mem_of_getElem? (i := id) (by rw [getElem?_frames, hsc]; rfl)
      rw [if_neg hne]
      exact h.indexed id sc hsc
  · rw [scope?_openScope] at hsc
    split at hsc
    · next heq =>
      cases hsc
      rw [heq]
      exact h.current_lt hk
    · exact h.nested id sc k hsc hk
  · rw [hsize]
    rcases List.mem_cons.mp hid with rfl | hid
    · exact Nat.lt_succ_self _
    · exact (h.open_lt id hid).trans (Nat.lt_succ_self _)

lemma Tidy.closeScope (h : c.Tidy) : c.closeScope.Tidy :=
  ⟨h.indexed, h.nested, fun id hid => h.open_lt id (List.mem_of_mem_tail hid)⟩

/-- A scope that is there is opened again. -/
lemma Tidy.push (h : c.Tidy) (hid : id < c.scopes.size) :
    ({ c with stack := id :: c.stack } : Context).Tidy :=
  ⟨h.indexed, h.nested, List.forall_mem_cons.mpr ⟨hid, h.open_lt⟩⟩

/-- What is added inside a new scope. -/
lemma Adds.close (ht : c.Tidy) (h : Adds fs ms (c.openScope kind n).2 c') :
    Adds (⟨n, kind, c.currentNode?⟩ :: fs) ms c c'.closeScope := by
  refine ⟨h.tidy.closeScope, ?_, ?_, fun m => ?_⟩
  · rw [Context.closeScope, h.stack]
    rfl
  · change c'.frames = _
    rw [h.frames, ht.frames_openScope, List.append_assoc]
    rfl
  · exact (h.returning m).trans (or_congr_left returning_openScope)

/-- What is added inside a scope that was opened again. -/
lemma Adds.reclose (h : Adds fs ms { c with stack := id :: c.stack } c') :
    Adds fs ms c c'.closeScope :=
  ⟨h.tidy.closeScope, by rw [Context.closeScope, h.stack]; rfl, h.frames, h.returning⟩

lemma currentNode?_openScope : (c.openScope kind n).2.currentNode? = some n := by
  simp [currentNode?, current?, openScope, nodeAt?, scope?]

lemma Tidy.nodup_openScope {o : Option NodeId} (h : c.Tidy)
    (hnd : (c.frames.map (·.node) ++ (⟨n, kind, o⟩ :: fs : List Frame).map (·.node)).Nodup) :
    ((c.openScope kind n).2.frames.map (·.node) ++ fs.map (·.node)).Nodup := by
  rwa [h.frames_openScope, List.map_append, List.append_assoc]

lemma Adds.currentNode? (h : Adds fs ms c c') (ht : c.Tidy) :
    c'.currentNode? = c.currentNode? := by
  rw [Context.currentNode?, Context.currentNode?, current?, h.stack]
  change c.current?.bind _ = _
  rcases hk : c.current? with _ | k
  · rfl
  · change c'.nodeAt? k = c.nodeAt? k
    rw [nodeAt?_eq, h.getElem?_frames (ht.current_lt hk), ← nodeAt?_eq]

end Context

/-! ### The first walk -/

namespace Collect

variable {c c' : Context} {outer : NodeId}

lemma adds_inScope {α : Type} {kind : ScopeKind} {node : Node} {body : Check α} {a : α}
    {fs : List Frame} (ht : c.Tidy) (hk : c.currentNode? = some outer)
    (hr : Runs (ScopeMode.fresh.inScope kind node body) c a c')
    (hbody : ∀ c1, Runs body (c.openScope kind node.id).2 a c1 →
      Adds fs [] (c.openScope kind node.id).2 c1) :
    Adds (⟨node.id, kind, some outer⟩ :: fs) [] c c' := by
  obtain ⟨c1, hb, rfl⟩ := runs_inScope_fresh hr
  rw [← hk]
  exact (hbody c1 hb).close ht

lemma sameTree_declare {name : String} {kind : SymbolKind} {d : NodeId} {l : Location}
    (h : Runs (Check.declare name kind d l) c () c') : SameTree c c' :=
  (Check.within_declare _ _ _ _).of_runs h

lemma adds_function {f : FunctionDecl} (ht : c.Tidy) (hk : c.currentNode? = some outer)
    (hn : f.id ∉ c.frames.map (·.node)) (hr : Runs (function .fresh f) c () c') :
    Adds [⟨f.id, .function, some outer⟩] [] c c' := by
  simp only [function, runs_bind] at hr
  obtain ⟨_, c1, hdecl, hr⟩ := hr
  have h1 := (sameTree_declare hdecl).adds ht
  have hn1 : f.id ∉ c1.frames.map (·.node) := by rwa [h1.frames, List.append_nil]
  refine h1.trans (adds_inScope h1.tidy ((h1.currentNode? ht).trans hk) hr fun c2 hb => ?_)
  have hsame : Within SameTree (do
      let ps ← parameters .lenient f.parameters
      let returns ← resultType .lenient f.returns
      let _ ← Check.setShape f.id (.function returns ps)) :=
    within_bind (within_parameters _ _) fun _ =>
      within_bind (within_resultType _ _) fun _ =>
        within_map (Check.within_setShape trivial)
  exact (hsame.of_runs hb).adds (h1.tidy.openScope hn1)

lemma adds_enum {e : EnumDecl} (ht : c.Tidy) (hk : c.currentNode? = some outer)
    (hn : e.id ∉ c.frames.map (·.node)) (hr : Runs (enum .fresh e) c () c') :
    Adds [⟨e.id, .enum, some outer⟩] [] c c' := by
  simp only [enum, runs_bind] at hr
  obtain ⟨_, c1, hdecl, hr⟩ := hr
  have h1 := (sameTree_declare hdecl).adds ht
  have hn1 : e.id ∉ c1.frames.map (·.node) := by rwa [h1.frames, List.append_nil]
  refine h1.trans (adds_inScope h1.tidy ((h1.currentNode? ht).trans hk) hr fun c2 hb => ?_)
  simp only [runs_bind, runs_get, Check.runs_setShape, runs_pure] at hb
  obtain ⟨_, _, ⟨rfl, rfl⟩, slots, c3, hitems, x, _, hset, -, rfl⟩ := hb
  have hitems' : SameTree _ c3 := (within_enumItems _).of_runs hitems
  exact (hitems'.trans (.of_same (same_setShape hset))).adds (h1.tidy.openScope hn1)

mutual

/-- **Collecting a declaration** opens one scope for each class, function and enum. -/
lemma adds_decl : ∀ {d : Decl} {c c' : Context} {outer : NodeId}, c.Tidy →
    c.currentNode? = some outer →
    (c.frames.map (·.node) ++ (d.frames outer).map (·.node)).Nodup →
    Runs (decl .fresh d) c () c' → Adds (d.frames outer) [] c c'
  | .object o, _, _, _, ht, hk, hnd, hr => adds_object ht hk hnd (runs_within.mp hr)
  | .function f, c, _, outer, ht, hk, hnd, hr => by
    refine adds_function ht hk (fun hf => ?_) (runs_within.mp hr)
    exact (List.nodup_append'.mp hnd).2.2 hf (List.mem_singleton_self _)
  | .var v, c, c', _, ht, _, _, hr => by
    have h : SameTree c c' :=
      (within_variableDecl v).of_runs (runs_within.mp hr)
    exact h.adds ht
  | .enum e, _, _, _, ht, hk, hnd, hr => by
    refine adds_enum ht hk (fun hf => ?_) (runs_within.mp hr)
    exact (List.nodup_append'.mp hnd).2.2 hf (List.mem_singleton_self _)
  | .foreign f, c, c', _, ht, _, _, hr => by
    have h : SameTree c c' :=
      (within_foreign f).of_runs (runs_within.mp hr)
    exact h.adds ht

lemma adds_object : ∀ {o : ClassDecl} {c c' : Context} {outer : NodeId}, c.Tidy →
    c.currentNode? = some outer →
    (c.frames.map (·.node) ++ (o.frames outer).map (·.node)).Nodup →
    Runs (object .fresh o) c () c' → Adds (o.frames outer) [] c c'
  | ⟨node, name, base, members⟩, c, c', outer, ht, hk, hnd, hr => by
    simp only [object, runs_bind] at hr
    obtain ⟨_, c1, hdecl, hr⟩ := hr
    have h1 := (sameTree_declare hdecl).adds ht
    have hnd1 := h1.nodup hnd
    have hn : node.id ∉ c1.frames.map (·.node) :=
      fun hm => (List.nodup_append'.mp hnd1).2.2 hm List.mem_cons_self
    refine h1.trans (adds_inScope h1.tidy ((h1.currentNode? ht).trans hk) hr fun c2 hb => ?_)
    simp only [runs_bind, runs_get, Check.runs_setShape] at hb
    obtain ⟨_, _, ⟨rfl, rfl⟩, b, c3, hbase, s, c4, hset, hfields⟩ := hb
    have hsame : SameTree _ c4 := .of_same ((same_baseType hbase).trans (same_setShape hset))
    have h2 := hsame.adds (h1.tidy.openScope hn)
    refine h2.trans (adds_fields h2.tidy ?_ ?_ hfields)
    · exact (h2.currentNode? (h1.tidy.openScope hn)).trans currentNode?_openScope
    · exact h2.nodup (h1.tidy.nodup_openScope hnd1)

lemma adds_fields {s : Slot} : ∀ {ds : List Decl} {c c' : Context} {outer : NodeId}, c.Tidy →
    c.currentNode? = some outer →
    (c.frames.map (·.node) ++ (Decl.framesAll outer ds).map (·.node)).Nodup →
    Runs (fields .fresh s ds) c () c' → Adds (Decl.framesAll outer ds) [] c c'
  | [], c, c', _, ht, _, _, hr => by
    simp only [fields, runs_pure] at hr
    obtain ⟨-, rfl⟩ := hr
    exact (Std.Refl.refl c : SameTree c c).adds ht
  | d :: rest, c, c', outer, ht, hk, hnd, hr => by
    simp only [fields, runs_bind] at hr
    obtain ⟨_, c1, hdecl, _, c2, hadd, hrest⟩ := hr
    rw [Decl.framesAll] at hnd
    have h1 := adds_decl ht hk (nodup_left hnd) hdecl
    have h2 := (SameTree.of_same (same_addField hadd)).adds h1.tidy
    have h12 := h1.after h2
    exact h12.trans
      (adds_fields h12.tidy ((h12.currentNode? ht).trans hk) (h12.nodup hnd) hrest)

end

lemma adds_decls : ∀ {ds : List Decl} {c c' : Context} {outer : NodeId}, c.Tidy →
    c.currentNode? = some outer →
    (c.frames.map (·.node) ++ (Decl.framesAll outer ds).map (·.node)).Nodup →
    Runs (decls .fresh ds) c () c' → Adds (Decl.framesAll outer ds) [] c c'
  | [], c, c', _, ht, _, _, hr => by
    simp only [decls, runs_pure] at hr
    obtain ⟨-, rfl⟩ := hr
    exact (Std.Refl.refl c : SameTree c c).adds ht
  | d :: rest, c, c', outer, ht, hk, hnd, hr => by
    simp only [decls, runs_bind] at hr
    obtain ⟨_, c1, hdecl, hrest⟩ := hr
    rw [Decl.framesAll] at hnd
    have h1 := adds_decl ht hk (nodup_left hnd) hdecl
    exact h1.trans (adds_decls h1.tidy ((h1.currentNode? ht).trans hk) (h1.nodup hnd) hrest)

/-- The scopes that the first walk leaves. -/
lemma adds_program {p : Program}
    (hnd : (p.id :: (Decl.framesAll p.id p.declarations).map (·.node)).Nodup)
    (hr : Runs (program .fresh p) {} () c) :
    Adds (⟨p.id, .program, none⟩ :: Decl.framesAll p.id p.declarations) [] {} c := by
  have hempty : Tidy {} := ⟨by simp [scope?], by simp [scope?], by simp⟩
  obtain ⟨c1, hb, rfl⟩ := runs_inScope_fresh hr
  have hopen : (Context.openScope {} .program p.id).2.Tidy :=
    hempty.openScope (by simp [Context.frames])
  exact (adds_decls hopen currentNode?_openScope
    (hempty.nodup_openScope (o := none) hnd) hb).close hempty

end Collect

/-! ### The second walk -/

namespace Context

variable {plan : Plan} {c c' : Context} {fs : List Frame} {ms : List NodeId} {n f outer : NodeId}
  {id : ScopeId} {kind : ScopeKind}

/-- The scopes of variables that can be demanded are there, and are no bodies. -/
def Housed (plan : Plan) (c : Context) : Prop :=
  ∀ n v, plan.pending.get? n = some v → ∃ f ∈ c.frames, f.node = v.owner ∧ f.kind ≠ .body

lemma Housed.adds (h : c.Housed plan) (ha : Adds fs ms c c') : c'.Housed plan := by
  intro n v hv
  obtain ⟨f, hf, howner⟩ := h n v hv
  exact ⟨f, by rw [ha.frames]; exact List.mem_append_left _ hf, howner⟩

lemma Housed.outside (h : c.Housed plan) (ht : c.Tidy) : c.Outside plan := by
  intro n v id hv hid
  obtain ⟨f, hf, howner, hkind⟩ := h n v hv
  obtain ⟨id', sc, hid', hsc, rfl⟩ := ht.exists_scope hf
  rw [howner, hid] at hid'
  cases hid'
  rw [scopeKind?, hsc]
  exact fun hk => hkind (Option.some.inj hk)

lemma Adds.scopeKind? (h : Adds fs ms c c') (hid : id < c.scopes.size) :
    c'.scopeKind? id = c.scopeKind? id := by
  rw [scopeKind?_eq, h.getElem?_frames hid, ← scopeKind?_eq]

lemma Adds.enclosing? (h : Adds fs ms c c') (ht : c.Tidy) (kind : ScopeKind) :
    c'.enclosing? kind = c.enclosing? kind := by
  rw [Context.enclosing?, Context.enclosing?, h.stack]
  refine List.find?_congr fun id hid => ?_
  rw [h.scopeKind? (ht.open_lt id hid)]

/-- Inside the function `f`, in the scope of the node `outer`. -/
structure InFunction (plan : Plan) (f outer : NodeId) (c : Context) : Prop where
  tidy : c.Tidy
  housed : c.Housed plan
  current : c.currentNode? = some outer
  function : (c.enclosing? .function).bind c.nodeAt? = some f

namespace InFunction

lemma adds (h : InFunction plan f outer c) (ha : Adds fs ms c c') :
    InFunction plan f outer c' := by
  refine ⟨ha.tidy, h.housed.adds ha, (ha.currentNode? h.tidy).trans h.current, ?_⟩
  obtain ⟨id, hid, hnode⟩ := Option.bind_eq_some_iff.mp h.function
  have hlt := h.tidy.open_lt id (List.mem_of_find?_eq_some hid)
  rw [ha.enclosing? h.tidy, hid]
  change c'.nodeAt? id = some f
  rw [nodeAt?_eq, ha.getElem?_frames hlt, ← nodeAt?_eq, hnode]

lemma same (h : InFunction plan f outer c) (hs : Quiet plan c c') : Adds [] [] c c' :=
  (SameTree.of_same (hs (h.housed.outside h.tidy))).adds h.tidy

lemma openBlock (h : InFunction plan f outer c) (hn : n ∉ c.frames.map (·.node)) :
    InFunction plan f n (c.openScope .body n).2 := by
  have hkind : ∀ id, id < c.scopes.size →
      (c.openScope .body n).2.scopeKind? id = c.scopeKind? id := by
    intro id hid
    rw [Context.scopeKind?, scope?_openScope, if_neg hid.ne]
    rfl
  refine ⟨h.tidy.openScope hn, fun m v hv => ?_, currentNode?_openScope, ?_⟩
  · obtain ⟨g, hg, hkind⟩ := h.housed m v hv
    exact ⟨g, by rw [h.tidy.frames_openScope]; exact List.mem_append_left _ hg, hkind⟩
  · -- the new scope is no function, so that the search goes on around it
    have hnew : (c.openScope .body n).2.scopeKind? c.scopes.size = some .body := by
      rw [Context.scopeKind?, scope?_openScope, if_pos rfl]
      rfl
    have hfind : (c.openScope .body n).2.enclosing? .function = c.enclosing? .function := by
      rw [Context.enclosing?, Context.enclosing?]
      change List.find? _ (c.scopes.size :: c.stack) = _
      rw [List.find?_cons, hnew]
      exact List.find?_congr fun id hid => by rw [hkind id (h.tidy.open_lt id hid)]
    obtain ⟨id, hid, hnode⟩ := Option.bind_eq_some_iff.mp h.function
    rw [hfind, hid]
    exact (nodeAt?_openScope (h.tidy.open_lt id (List.mem_of_find?_eq_some hid))).trans hnode

end InFunction

/-- A function is marked. -/
lemma Tidy.adds_markReturn (ht : c.Tidy) (hid : c.nodeAt? id = some f) :
    Adds [] [f] c (c.markReturn id) := by
  obtain ⟨sc0, hsc0, rfl⟩ := Option.map_eq_some_iff.mp hid
  have hscope : ∀ k, (c.markReturn id).scope? k =
      if id = k then (c.scope? k).map fun sc => { sc with returns := true } else c.scope? k :=
    fun k => scope?_modifyScope
  have hold : ∀ k sc, (c.markReturn id).scope? k = some sc → ∃ old, c.scope? k = some old ∧
      sc = { old with returns := sc.returns } ∧
      (sc.returns = true → old.returns = true ∨ id = k) := by
    intro k sc hsc
    rw [hscope] at hsc
    split at hsc
    · next heq =>
      obtain ⟨old, hold, rfl⟩ := Option.map_eq_some_iff.mp hsc
      exact ⟨old, hold, rfl, fun _ => .inr heq⟩
    · exact ⟨sc, hsc, rfl, .inl⟩
  have hsize : (c.markReturn id).scopes.size = c.scopes.size := by simp [markReturn, modifyScope]
  have hnode : (c.markReturn id).nodeAt? = c.nodeAt? := by
    funext k
    rw [nodeAt?, nodeAt?, hscope]
    split
    · rw [Option.map_map]
      rfl
    · rfl
  refine ⟨⟨fun k sc hsc => ?_, fun k sc j hsc hj => ?_, ?_⟩, rfl, ?_, fun n => ⟨?_, ?_⟩⟩
  · obtain ⟨old, hold, heq, -⟩ := hold k sc hsc
    rw [heq]
    exact ht.indexed k old hold
  · obtain ⟨old, hold, heq, -⟩ := hold k sc hsc
    rw [heq] at hj
    exact ht.nested k old j hold hj
  · rw [hsize]
    exact ht.open_lt
  · rw [List.append_nil]
    refine List.ext_getElem? fun k => ?_
    have hframe : (c.markReturn id).frameOf = c.frameOf := by
      funext sc
      rw [frameOf, frameOf, hnode]
    rw [getElem?_frames, getElem?_frames, hframe, hscope]
    split
    · rw [Option.map_map]
      rfl
    · rfl
  · rintro ⟨k, sc, hsc, rfl, hret⟩
    obtain ⟨old, hold, heq, hmark⟩ := hold k sc hsc
    have hnode : sc.node = old.node := by rw [heq]
    rcases hmark hret with hret | rfl
    · exact .inl ⟨k, old, hold, hnode.symm, hret⟩
    · obtain rfl := Option.some.inj (hsc0.symm.trans hold)
      exact .inr (by simp [hnode])
  · rintro (⟨k, old, hold, rfl, hret⟩ | hn)
    · by_cases hk : id = k
      · exact ⟨k, { old with returns := true }, by rw [hscope, if_pos hk, hold]; rfl, rfl, rfl⟩
      · exact ⟨k, old, by rw [hscope, if_neg hk, hold], rfl, hret⟩
    · obtain rfl := List.mem_singleton.mp hn
      exact ⟨id, { sc0 with returns := true }, by rw [hscope, if_pos rfl, hsc0]; rfl, rfl, rfl⟩

end Context

namespace Resolve

variable {plan : Plan} {s s' : Resolving} {f outer : NodeId} {c c' : Context} {node : Node}

lemma adds_typeVoid (ht : c.Tidy) (hr : Runs (typeVoid node) c () c') : Adds [] [] c c' := by
  obtain ⟨y, hset⟩ := runs_typeVoid hr
  exact (SameTree.of_same (Collect.same_setShape hset)).adds ht

/-- A variable adds no scope. -/
lemma adds_variableDecl {v : VariableDecl} (ht : s.Tidy) (hh : s.toContext.Housed plan)
    (hr : Runs (variableDecl plan (demand plan) v) s () s') :
    Adds [] [] s.toContext s'.toContext := by
  have htype : ∀ {s1 : Resolving}, Runs (variableType plan (demand plan) v)
      { s with resolving := v.id :: s.resolving } () s1 → SameTree s.toContext s1.toContext := by
    intro s1 hv
    have hq : Resolving.Along (Quiet plan) { s with resolving := v.id :: s.resolving } s1 :=
      (within_variableType plan (quiet_demand plan) v).of_runs hv
    exact .of_same (hq (hh.outside ht))
  rcases runs_variableDecl hr with ⟨-, rfl⟩ | ⟨-, -, s1, hv, ⟨-, rfl⟩ | ⟨-, c, hdecl, rfl⟩⟩
  · exact (Std.Refl.refl _ : SameTree _ _).adds ht
  · exact (htype hv).adds ht
  · exact ((htype hv).trans (Collect.sameTree_declare hdecl)).adds ht

lemma adds_return {value : Option Expr} (h : Context.InFunction plan f outer s.toContext)
    (hr : Runs (returnRule plan node value) s () s') : Adds [] [f] s.toContext s'.toContext := by
  obtain ⟨id, sc, r, ps, hid, -, -, ⟨-, -, rfl⟩ | ⟨e, found, s1, c1, -, -, he, hcheck, rfl⟩⟩ :=
    runs_returnRule hr
  · obtain ⟨id', hid', hnode⟩ := Option.bind_eq_some_iff.mp h.function
    obtain rfl := Option.some.inj (hid.symm.trans hid')
    exact h.tidy.adds_markReturn hnode
  · have hexpr : Quiet plan s.toContext s1.toContext := (quiet_expr plan e).of_runs he
    have hrest : Quiet plan s1.toContext c1 :=
      (within_checkAssignable r e found .returned).of_runs hcheck
    have h1 := h.same (IsTrans.trans _ _ _ hexpr hrest)
    obtain ⟨id', hid', hnode⟩ := Option.bind_eq_some_iff.mp (h.adds h1).function
    rw [h1.enclosing? h.tidy, hid] at hid'
    cases hid'
    exact h1.trans (h1.tidy.adds_markReturn hnode)

lemma mem_ite_or {a b : Bool} {n : NodeId} :
    n ∈ (if a then [f] else []) ++ (if b then [f] else []) ↔ n ∈ if a || b then [f] else [] := by
  cases a <;> cases b <;> simp

mutual

/-- **A statement** opens one scope for each block in it. -/
lemma adds_stmt : ∀ {st : Stmt} {s s' : Resolving} {outer : NodeId},
    Context.InFunction plan f outer s.toContext →
    (s.frames.map (·.node) ++ (st.frames outer).map (·.node)).Nodup →
    Runs (stmt .reopen plan st) s () s' →
      Adds (st.frames outer) (if st.returns then [f] else []) s.toContext s'.toContext
  | .expression node value, s, s', outer, h, _, hr => by
    simp only [stmt, runs_bind, runs_lift] at hr
    obtain ⟨found, s1, he, c, hvoid, rfl⟩ := hr
    have hexpr : Quiet plan s.toContext s1.toContext := (quiet_expr plan value).of_runs he
    have h1 := h.same hexpr
    exact h1.trans (adds_typeVoid h1.tidy hvoid)
  | .var v, s, s', outer, h, _, hr => by
    simp only [stmt, runs_bind, runs_lift, runs_within] at hr
    obtain ⟨_, s1, hv, c, hvoid, rfl⟩ := hr
    have h1 := adds_variableDecl h.tidy h.housed hv
    exact h1.trans (adds_typeVoid h1.tidy hvoid)
  | .ret node value, s, s', outer, h, _, hr => by
    simp only [stmt, runs_bind, runs_lift] at hr
    obtain ⟨_, s1, hret, c, hvoid, rfl⟩ := hr
    have h1 := adds_return h hret
    exact h1.trans (adds_typeVoid h1.tidy hvoid)
  | .branch node test yes none, s, s', outer, h, hnd, hr => by
    simp only [stmt, runs_bind, runs_lift] at hr
    obtain ⟨_, s1, htest, _, s2, hyes, c, hvoid, rfl⟩ := hr
    have hcond : Quiet plan s.toContext s1.toContext := (quiet_condition plan test).of_runs htest
    have h1 := h.same hcond
    simp only [Stmt.frames, List.append_nil] at hnd ⊢
    have h2 := adds_block (h.adds h1) (h1.nodup hnd) hyes
    refine (h1.trans (h2.after (adds_typeVoid h2.tidy hvoid))).congr rfl fun n => ?_
    rw [List.nil_append, Stmt.returns, Bool.or_false]
  | .branch node test yes (some other), s, s', outer, h, hnd, hr => by
    simp only [stmt, runs_bind, runs_lift] at hr
    obtain ⟨_, s1, htest, _, s2, hyes, _, s3, hno, c, hvoid, rfl⟩ := hr
    have hcond : Quiet plan s.toContext s1.toContext := (quiet_condition plan test).of_runs htest
    have h1 := h.same hcond
    simp only [Stmt.frames] at hnd ⊢
    have hnd1 := h1.nodup hnd
    have h2 := adds_block (h.adds h1) (nodup_left hnd1) hyes
    have h3 := adds_block ((h.adds h1).adds h2) (h2.nodup hnd1) hno
    refine (h1.trans (h2.trans (h3.after (adds_typeVoid h3.tidy hvoid)))).congr rfl fun n => ?_
    rw [List.nil_append, Stmt.returns]
    exact mem_ite_or
  | .loop node test body, s, s', outer, h, hnd, hr => by
    simp only [stmt, runs_bind, runs_lift] at hr
    obtain ⟨_, s1, htest, _, s2, hbody, c, hvoid, rfl⟩ := hr
    have hcond : Quiet plan s.toContext s1.toContext := (quiet_condition plan test).of_runs htest
    have h1 := h.same hcond
    simp only [Stmt.frames, Stmt.returns] at hnd ⊢
    have h2 := adds_block (h.adds h1) (h1.nodup hnd) hbody
    exact h1.trans (h2.after (adds_typeVoid h2.tidy hvoid))
  | .block b, s, s', outer, h, hnd, hr => by
    simp only [stmt, runs_bind, runs_lift] at hr
    obtain ⟨_, s1, hb, c, hvoid, rfl⟩ := hr
    simp only [Stmt.frames, Stmt.returns] at hnd ⊢
    have h1 := adds_block h hnd hb
    exact h1.after (adds_typeVoid h1.tidy hvoid)

lemma adds_stmts : ∀ {ss : List Stmt} {s s' : Resolving} {outer : NodeId},
    Context.InFunction plan f outer s.toContext →
    (s.frames.map (·.node) ++ (Stmt.framesAll outer ss).map (·.node)).Nodup →
    Runs (stmts .reopen plan ss) s () s' →
      Adds (Stmt.framesAll outer ss) (if Stmt.anyReturns ss then [f] else []) s.toContext
        s'.toContext
  | [], s, s', outer, h, _, hr => by
    simp only [stmts, runs_pure] at hr
    obtain ⟨-, rfl⟩ := hr
    exact (Std.Refl.refl _ : SameTree _ _).adds h.tidy
  | st :: rest, s, s', outer, h, hnd, hr => by
    simp only [stmts, runs_bind] at hr
    obtain ⟨_, s1, hst, hrest⟩ := hr
    rw [Stmt.framesAll] at hnd
    have h1 := adds_stmt h (nodup_left hnd) hst
    exact (h1.trans (adds_stmts (h.adds h1) (h1.nodup hnd) hrest)).congr rfl fun n => mem_ite_or

lemma adds_block : ∀ {b : Block} {s s' : Resolving} {outer : NodeId},
    Context.InFunction plan f outer s.toContext →
    (s.frames.map (·.node) ++ (b.frames outer).map (·.node)).Nodup →
    Runs (block .reopen plan b) s () s' →
      Adds (b.frames outer) (if b.returns then [f] else []) s.toContext s'.toContext
  | ⟨node, statements⟩, s, s', outer, h, hnd, hr => by
    simp only [block, runs_bind, runs_lift] at hr
    obtain ⟨_, s1, hin, c, hvoid, rfl⟩ := hr
    obtain ⟨c1, s2, henter, hbody, rfl⟩ := runs_inScope hin
    unfold Runs at henter
    rw [ScopeMode.outcome_enter, if_neg (by simp),
      if_neg (by simp [ScopeMode.mustReopen])] at henter
    cases henter
    rw [Block.frames] at hnd ⊢
    rw [Block.returns]
    have hn : node.id ∉ s.frames.map (·.node) :=
      fun hm => (List.nodup_append'.mp hnd).2.2 hm List.mem_cons_self
    have h1 := adds_stmts (s := { s with toContext := (s.openScope .body node.id).2 })
      (h.openBlock hn) (h.tidy.nodup_openScope hnd) hbody
    have h2 := h1.close h.tidy
    rw [h.current] at h2
    exact h2.after (adds_typeVoid h2.tidy hvoid)

end

/-! ### Declarations -/

/-- Where declarations are resolved: outside of functions, with the scopes that the first walk
opened. -/
structure Outdoors (plan : Plan) (c : Context) : Prop where
  tidy : c.Tidy
  housed : c.Housed plan
  outside : c.isInside .function = false

lemma Outdoors.adds {fs : List Frame} {ms : List NodeId} (h : Outdoors plan c)
    (ha : Adds fs ms c c') : Outdoors plan c' := by
  refine ⟨ha.tidy, h.housed.adds ha, ?_⟩
  rw [isInside, ha.enclosing? h.tidy]
  exact h.outside

/-- The scope of a frame that was there is opened again. -/
lemma Outdoors.reopen {fr : Frame} {l : Location} (h : Outdoors plan c) (hf : fr ∈ c.frames)
    (hkind : fr.kind ≠ .body) (hr : Runs (ScopeMode.reopen.enter fr.kind fr.node l) c () c') :
    ∃ id, id < c.scopes.size ∧ c.frames[id]? = some fr ∧
      c' = { c with stack := id :: c.stack } := by
  obtain ⟨id, hid, rfl⟩ := runs_reopen hkind h.outside hr
  obtain ⟨id', sc, hid', hsc, rfl⟩ := h.tidy.exists_scope hf
  obtain rfl := Option.some.inj (hid.symm.trans hid')
  refine ⟨id, scope?_lt hsc, ?_, rfl⟩
  rw [getElem?_frames, hsc]
  rfl

lemma adds_function {fn : FunctionDecl} (h : Outdoors plan s.toContext)
    (hf : ⟨fn.id, .function, some outer⟩ ∈ s.frames)
    (hnd : (s.frames.map (·.node) ++ (fn.body.frames fn.id).map (·.node)).Nodup)
    (hr : Runs (function .reopen plan fn) s () s') :
    Adds (fn.body.frames fn.id) (if fn.body.returns then [fn.id] else []) s.toContext
      s'.toContext := by
  obtain ⟨c1, s2, henter, hbody, rfl⟩ := runs_inScope hr
  obtain ⟨id, hlt, hid, rfl⟩ := h.reopen hf (by simp) henter
  simp only [runs_bind, runs_get, runs_lift] at hbody
  obtain ⟨_, _, ⟨rfl, rfl⟩, _, s3, hblock, c4, hcheck, rfl⟩ := hbody
  have hkind : s.scopeKind? id = some .function := by rw [scopeKind?_eq, hid]; rfl
  have hnode : s.nodeAt? id = some fn.id := by rw [nodeAt?_eq, hid]; rfl
  have hin : Context.InFunction plan fn.id fn.id { s.toContext with stack := id :: s.stack } := by
    refine ⟨h.tidy.push hlt, h.housed, hnode, ?_⟩
    have hfind : ({ s.toContext with stack := id :: s.stack } : Context).enclosing? .function =
        some id := by
      change List.find? (fun k => decide (s.scopeKind? k = some .function)) (id :: s.stack) = _
      rw [List.find?_cons, hkind]
      simp
    rw [hfind]
    exact hnode
  have h1 := adds_block (s := { s with stack := id :: s.stack }) hin hnd hblock
  have hsame : SameTree s3.toContext c4 := (within_checkReturns fn _).of_runs hcheck
  exact (h1.after (hsame.adds h1.tidy)).reclose

mutual

/-- **A declaration** opens the scopes of the blocks in its functions. -/
lemma adds_decl : ∀ {d : Decl} {s s' : Resolving} {outer : NodeId}, Outdoors plan s.toContext →
    (∀ fr ∈ d.frames outer, fr ∈ s.frames) →
    (s.frames.map (·.node) ++ (d.all.flatMap Decl.bodyFrames).map (·.node)).Nodup →
    Runs (decl .reopen plan d) s () s' →
      Adds (d.all.flatMap Decl.bodyFrames) (d.all.flatMap Decl.returning) s.toContext s'.toContext
  | .object o, _, _, _, h, hf, hnd, hr => adds_object h hf hnd (runs_within.mp hr)
  | .function fn, s, s', outer, h, hf, hnd, hr => by
    rw [Decl.all, List.flatMap_singleton] at hnd ⊢
    rw [List.flatMap_singleton]
    exact adds_function h (hf _ (List.mem_singleton_self _)) hnd (runs_within.mp hr)
  | .var v, _, _, _, h, _, _, hr => adds_variableDecl h.tidy h.housed (runs_within.mp hr)
  | .enum _, _, _, _, h, _, _, hr | .foreign _, _, _, _, h, _, _, hr => by
    obtain ⟨-, rfl⟩ := runs_pure.mp hr
    exact (Std.Refl.refl _ : SameTree _ _).adds h.tidy

lemma adds_object : ∀ {o : ClassDecl} {s s' : Resolving} {outer : NodeId},
    Outdoors plan s.toContext → (∀ fr ∈ o.frames outer, fr ∈ s.frames) →
    (s.frames.map (·.node) ++ (o.all.flatMap Decl.bodyFrames).map (·.node)).Nodup →
    Runs (object .reopen plan o) s () s' →
      Adds (o.all.flatMap Decl.bodyFrames) (o.all.flatMap Decl.returning) s.toContext s'.toContext
  | ⟨node, name, base, members⟩, s, s', outer, h, hf, hnd, hr => by
    obtain ⟨hown, hmembers⟩ := List.forall_mem_cons.mp hf
    obtain ⟨c1, s2, henter, hbody, rfl⟩ := runs_inScope hr
    obtain ⟨id, hlt, hid, rfl⟩ := h.reopen hown (by simp) henter
    have hkind : s.scopeKind? id = some .object := by rw [scopeKind?_eq, hid]; rfl
    have hout : Outdoors plan { s.toContext with stack := id :: s.stack } := by
      refine ⟨h.tidy.push hlt, h.housed, ?_⟩
      have houtside := h.outside
      rw [isInside, enclosing?] at houtside ⊢
      change (List.find? (fun k => decide (s.scopeKind? k = some .function)) (id :: s.stack)).isSome
        = false
      rw [List.find?_cons, hkind]
      exact houtside
    exact (adds_decls (s := { s with stack := id :: s.stack }) hout hmembers hnd hbody).reclose

lemma adds_decls : ∀ {ds : List Decl} {s s' : Resolving} {outer : NodeId},
    Outdoors plan s.toContext → (∀ fr ∈ Decl.framesAll outer ds, fr ∈ s.frames) →
    (s.frames.map (·.node) ++ ((Decl.allOf ds).flatMap Decl.bodyFrames).map (·.node)).Nodup →
    Runs (decls .reopen plan ds) s () s' →
      Adds ((Decl.allOf ds).flatMap Decl.bodyFrames) ((Decl.allOf ds).flatMap Decl.returning)
        s.toContext s'.toContext
  | [], s, s', _, h, _, _, hr => by
    simp only [decls, runs_pure] at hr
    obtain ⟨-, rfl⟩ := hr
    exact (Std.Refl.refl _ : SameTree _ _).adds h.tidy
  | d :: rest, s, s', outer, h, hf, hnd, hr => by
    obtain ⟨hd, hrest⟩ := List.forall_mem_append.mp hf
    simp only [decls, runs_bind] at hr
    obtain ⟨_, s1, hr1, hr2⟩ := hr
    rw [Decl.allOf, List.flatMap_append] at hnd ⊢
    rw [List.flatMap_append]
    have h1 := adds_decl h hd (nodup_left hnd) hr1
    have hrest1 : ∀ fr ∈ Decl.framesAll outer rest, fr ∈ s1.frames := by
      intro fr hfr
      rw [h1.frames]
      exact List.mem_append_left _ (hrest fr hfr)
    exact h1.trans (adds_decls (h.adds h1) hrest1 (h1.nodup hnd) hr2)

end

end Resolve

/-! ### The whole analysis -/

/-- The kind of scope that a declaration has. -/
def Decl.scopeKind? : Decl → Option ScopeKind
  | .object _ => some .object
  | .function _ => some .function
  | .enum _ => some .enum
  | .var _ | .foreign _ => none

mutual

/-- Where a class, a function or an enum is declared, it has a frame. -/
lemma Decl.exists_frame {d' : Decl} {kind : ScopeKind} : ∀ {d : Decl} (outer : NodeId), d' ∈ d.all →
    d'.scopeKind? = some kind → ∃ fr ∈ d.frames outer, fr.node = d'.node.id ∧ fr.kind = kind
  | .object ⟨node, _, _, members⟩, outer, h, hk => by
    rcases List.mem_cons.mp h with rfl | h
    · cases hk
      exact ⟨_, List.mem_cons_self, rfl, rfl⟩
    · obtain ⟨fr, hfr, hown⟩ := Decl.exists_frameAll node.id h hk
      exact ⟨fr, List.mem_cons_of_mem _ hfr, hown⟩
  | .function _, _, h, hk | .enum _, _, h, hk => by
    rw [List.mem_singleton.mp h] at hk ⊢
    cases hk
    exact ⟨_, List.mem_singleton_self _, rfl, rfl⟩
  | .var _, _, h, hk | .foreign _, _, h, hk => by
    rw [List.mem_singleton.mp h] at hk
    cases hk

lemma Decl.exists_frameAll {d' : Decl} {kind : ScopeKind} : ∀ {ds : List Decl} (outer : NodeId),
    d' ∈ Decl.allOf ds → d'.scopeKind? = some kind →
      ∃ fr ∈ Decl.framesAll outer ds, fr.node = d'.node.id ∧ fr.kind = kind
  | [], _, h, _ => by simp [Decl.allOf] at h
  | d :: rest, outer, h, hk => by
    rcases List.mem_append.mp h with h | h
    · obtain ⟨fr, hfr, hown⟩ := Decl.exists_frame outer h hk
      exact ⟨fr, List.mem_append_left _ hfr, hown⟩
    · obtain ⟨fr, hfr, hown⟩ := Decl.exists_frameAll outer h hk
      exact ⟨fr, List.mem_append_right _ hfr, hown⟩

end

/-- The frames of declarations. -/
def Program.declared (p : Program) : List Frame :=
  ⟨p.id, .program, none⟩ :: Decl.framesAll p.id p.declarations

lemma Program.frames_eq (p : Program) :
    p.frames = p.declared ++ p.allDecls.flatMap Decl.bodyFrames := rfl

/-- The scopes in which the second walk starts. -/
lemma Resolve.Starts.outdoors {plan : Plan} {s : Resolving} (h : Starts p plan s)
    (ht : s.Tidy) (hframes : s.frames = p.declared) : Outdoors plan s.toContext := by
  refine ⟨ht, fun n v hv => ?_, ?_⟩
  · rw [hframes]
    obtain ⟨-, -, howner⟩ := h.serves.pending n v hv
    rcases Program.mem_owners.mp howner with howner | ⟨o, ho, howner⟩
    · exact ⟨_, List.mem_cons_self, howner.symm, by simp⟩
    · obtain ⟨fr, hfr, hnode, hkind⟩ := Decl.exists_frameAll p.id ho rfl
      exact ⟨fr, List.mem_cons_of_mem _ hfr, hnode.trans howner.symm, by simp [hkind]⟩
  · have hkind := Collect.currentKind?_of_scopeAt (k := rootScope)
      (by rw [current?, h.stack]; rfl) h.root
    rw [currentKind?, current?, h.stack] at hkind
    rw [isInside, enclosing?, h.stack]
    simpa using fun hfun => by
      have := hkind.symm.trans hfun
      cases this

namespace Analysis

variable {p : Program} {a : Analysis} {c1 c2 : Context}

/-- The second walk starts from the scopes that the first one has left. -/
lemma started_of_same {c : Context} (hp : p.FullyNumbered)
    (hcollect : Runs (Collect.program .fresh p) {} () c1)
    (hsame : SameScopes { c1 with stack := [rootScope] } c) :
    c.Tidy ∧ c.frames = p.declared ∧ ∀ n, c.Returning n ↔ n ∈ ([] : List NodeId) := by
  have hnd := hp.frames_nodup
  rw [Program.frames_eq, List.map_append] at hnd
  have hcollect := Collect.adds_program hnd.of_append_left hcollect
  have hroot : rootScope < c1.scopes.size := by
    rw [← c1.length_frames, hcollect.frames]
    simp [Context.frames, rootScope]
  have hopen : ({ c1 with stack := [rootScope] } : Context).Tidy :=
    ⟨hcollect.tidy.indexed, hcollect.tidy.nested, by simpa using hroot⟩
  have h1 := (SameTree.of_same hsame).adds hopen
  refine ⟨h1.tidy, (SameTree.of_same hsame).frames.trans hcollect.frames, fun n => ?_⟩
  rw [h1.returning]
  change c1.Returning n ∨ n ∈ [] ↔ _
  rw [hcollect.returning]
  simp [Returning, scope?]

lemma Accepts.starts (h : Accepts p a c1 c2) (hp : a.program.FullyNumbered) :
    ∃ plan s s', Resolve.Starts a.program plan s ∧ s.Tidy ∧
      s.frames = a.program.declared ∧ SameScopes { c1 with stack := [rootScope] } s.toContext ∧
      (∀ n, s.Returning n ↔ n ∈ ([] : List NodeId)) ∧
      Runs (Resolve.decls .reopen plan a.program.declarations) s () s' ∧
      c2 = s'.toContext.closeScope := by
  obtain ⟨plan, s, s', hstarts, hsame, hdecls, rfl⟩ :=
    Resolve.starts_of_program hp h.collect h.resolve
  obtain ⟨htidy, hframes, hreturning⟩ := started_of_same hp h.collect hsame
  exact ⟨plan, s, s', hstarts, htidy, hframes, hsame, hreturning, hdecls, rfl⟩

/-- The scopes after both walks. -/
lemma Accepts.adds (h : Accepts p a c1 c2) (hp : a.program.FullyNumbered) :
    Adds a.program.frames a.program.returning {} c2 := by
  have hnd := hp.frames_nodup
  rw [Program.frames_eq, List.map_append] at hnd
  obtain ⟨plan, s, s', hstarts, htidy, hframes, -, hreturning, hdecls, rfl⟩ := h.starts hp
  have hmem : ∀ fr ∈ Decl.framesAll a.program.id a.program.declarations, fr ∈ s.frames :=
    fun fr hfr => hframes ▸ List.mem_cons_of_mem _ hfr
  have h2 := Resolve.adds_decls (hstarts.outdoors htidy hframes) hmem (by rwa [hframes]) hdecls
  refine ⟨h2.tidy.closeScope, ?_, ?_, fun n => ?_⟩
  · rw [closeScope, h2.stack, hstarts.stack]
    rfl
  · change s'.frames = _
    rw [h2.frames, hframes]
    rfl
  · change s'.Returning n ↔ _
    rw [h2.returning, hreturning, Program.returning, Program.allDecls]
    simp [Returning, scope?]

/-- **The scope tree mirrors the syntax tree.** In an accepted program there is one scope for the
program and one for each class, function, enum and block; it is the scope of that node, has its
kind, and its parent is the scope of the nearest node around that has one. A scope is marked as
returning exactly if it is that of a function with a return statement in its body. -/
theorem scopes_mirror_tree (hp : p.FullyNumbered) (h : Analysis.standard p = .ok a) :
    (a.program.frames.map (·.node)).Nodup ∧
    a.context.scopes.toList.map (·.node) = a.program.frames.map (·.node) ∧
    ∀ f ∈ a.program.frames, ∃ id sc,
      a.context.scopeOf? f.node = some id ∧ a.context.scope? id = some sc ∧ sc.node = f.node ∧
      sc.kind = f.kind ∧ sc.parent = f.outer.bind a.context.scopeOf? ∧
      (sc.returns = true ↔ f.node ∈ a.program.returning) := by
  obtain ⟨c1, c2, hacc⟩ := accepts_of_standard h
  obtain ⟨g, hg⟩ := hacc.context
  have hnum : a.program.FullyNumbered := hp.hoist.withEntryPoint hacc.arranged
  have hadds := hacc.adds hnum
  have hframes : c2.frames = a.program.frames := hadds.frames
  rw [hg]
  refine ⟨hnum.frames_nodup, ?_, fun f hf => ?_⟩
  · rw [← hframes, Context.frames, List.map_map]
    rfl
  · rw [← hframes] at hf
    obtain ⟨id, sc, hid, hsc, rfl⟩ := hadds.tidy.exists_scope hf
    refine ⟨id, sc, hid, hsc, rfl, rfl, ?_, ?_⟩
    · -- the parent is the scope of its own node
      rcases hparent : sc.parent with _ | k
      · simp [frameOf, hparent]
      · have hlt := hadds.tidy.parent_lt id sc k hsc hparent
        have hk : c2.scope? k = some c2.scopes[k] := by simp [scope?, hlt]
        simp only [frameOf, hparent, Option.bind_some, nodeAt?, hk, Option.map_some]
        exact (hadds.tidy.indexed k _ hk).symm
    · have hret := hadds.returning sc.node
      have hempty : ¬ Context.Returning {} sc.node := by simp [Returning, scope?]
      constructor
      · intro hmark
        exact (hret.mp ⟨id, sc, hsc, rfl, hmark⟩).resolve_left hempty
      · intro hmem
        obtain ⟨id', sc', hsc', hnode, hmark⟩ := hret.mpr (.inr hmem)
        have hid' := hadds.tidy.indexed id' sc' hsc'
        rw [hnode, hadds.tidy.indexed id sc hsc] at hid'
        cases hid'
        rw [hsc] at hsc'
        cases hsc'
        exact hmark

/-- An enum, a class whose method returns from a branch inside a loop, and a loose statement. -/
def nestedScopes : Program :=
  (StateT.run (m := Id) (do
    let e ← Draft.enumDecl "Color" [← Draft.enumItem "red" []]
    let early ← Draft.ifStmt (← Draft.literal (.boolean true)) [← Draft.returnStmt none] (some [])
    let loop ← Draft.whileStmt (← Draft.literal (.boolean true)) [early]
    let m ← Draft.functionDecl "m" [] none [loop]
    let c ← Draft.classDecl "A" none [.function m]
    let loose ← Draft.expressionStmt (← Draft.literal (.integer "1"))
    Draft.program [.enum e, .object c] [loose]) {}).1

theorem scopes_mirror_tree_nestedScopes : ∃ a, Analysis.standard nestedScopes = .ok a ∧
    nestedScopes.FullyNumbered ∧
    a.program.frames.map (·.kind) = [.program, .enum, .object, .function, .function, .body, .body,
      .body, .body, .body] ∧ a.program.returning.length = 1 ∧
    (a.program.frames.map (·.node)).Nodup ∧
    a.context.scopes.toList.map (·.node) = a.program.frames.map (·.node) ∧
    ∀ f ∈ a.program.frames, ∃ id sc,
      a.context.scopeOf? f.node = some id ∧ a.context.scope? id = some sc ∧ sc.node = f.node ∧
      sc.kind = f.kind ∧ sc.parent = f.outer.bind a.context.scopeOf? ∧
      (sc.returns = true ↔ f.node ∈ a.program.returning) := by
  have hp : nestedScopes.FullyNumbered :=
    ⟨⟨by decide +kernel, by decide +kernel⟩, by decide +kernel, by decide +kernel⟩
  obtain ⟨a, ha, hframes⟩ := exists_of_map_eq (p := nestedScopes)
    (f := fun a => (a.program.frames.map (·.kind), a.program.returning.length))
    (y := ([.program, .enum, .object, .function, .function, .body, .body, .body, .body, .body], 1))
    (by decide +kernel)
  obtain ⟨hkinds, hreturning⟩ := Prod.ext_iff.mp hframes
  exact ⟨a, ha, hp, hkinds, hreturning, scopes_mirror_tree hp ha⟩

end Analysis

end Sema
