import Sema.Proofs.Accepted
import Sema.Proofs.Planned
import Sema.Syntax.Draft

/-!
Local variables are void. A variable statement has the node of its variable, and every statement is
typed void once it is done; so a local variable has the type of its annotation or of its value only
while its own statement is checked, before anything can refer to it.
-/

namespace Sema

open Sema.Action

/-! ### Local variables -/

mutual

/-- The variables that a statement declares, at any depth. -/
def Stmt.locals : Stmt → List VariableDecl
  | .var v => [v]
  | .branch _ _ yes no => yes.locals ++ match no with
    | some other => other.locals
    | none => []
  | .loop _ _ body => body.locals
  | .block b => b.locals
  | .expression .. | .ret .. => []

def Stmt.localsAll : List Stmt → List VariableDecl
  | [] => []
  | s :: rest => s.locals ++ Stmt.localsAll rest

def Block.locals : Block → List VariableDecl
  | ⟨_, statements⟩ => Stmt.localsAll statements

end

namespace Decl

/-- The nodes of the body of a function. -/
def body : Decl → List NodeId
  | .function f => f.body.nodes
  | .object _ | .var _ | .enum _ | .foreign _ => []

/-- The node of a declaration, which may have a scope, and the nodes of its body. -/
def visited (d : Decl) : List NodeId :=
  d.node.id :: d.body

/-- The variables that the body of a function declares. -/
def locals : Decl → List VariableDecl
  | .function f => f.body.locals
  | .object _ | .var _ | .enum _ | .foreign _ => []

end Decl

/-- The local variables of a program, at any depth. -/
def Program.locals (p : Program) : List VariableDecl :=
  p.allDecls.flatMap Decl.locals

namespace Resolving

variable {G : Groundwork} {N : Nat} {ns : List NodeId} {s s' : Resolving} {n : NodeId}

/-- The node is void, in a slot that is kept. -/
def VoidAt (N : Nat) (s : Resolving) (n : NodeId) : Prop :=
  ∃ y, N ≤ y ∧ y < s.types.size ∧ s.nodeType? n = some y ∧ s.types.get y = .void

lemma VoidAt.advances (h : VoidAt G.size s n) (ha : Advances G ns s s') : VoidAt G.size s' n := by
  obtain ⟨y, hN, hlt, hn, hget⟩ := h
  exact ⟨y, hN, hlt.trans_le ha.size_le, ha.nodeType n y hn, (ha.old y hN hlt).trans hget⟩

/-- A local variable whose statement is done: it is void, and its annotation holds what it says. -/
structure LocalAt (G : Groundwork) (s : Resolving) (v : VariableDecl) : Prop where
  void : VoidAt G.size s v.id
  inscribed : G.r → Resolve.Inscribed G v s.toContext

lemma LocalAt.advances {v : VariableDecl} (h : LocalAt G s v) (hs : Footing G s)
    (ha : Advances G ns s s') : LocalAt G s' v :=
  ⟨h.void.advances ha, fun hr => (h.inscribed hr).advances hs hr ha⟩

end Resolving

/-! ### Statements -/

namespace Resolve

open Context Resolving

variable {G : Groundwork} {plan : Plan} {r : Rules} {mode : ScopeMode} {s s1 s' : Resolving}
  {c : Context} {ns : List NodeId} {e : Expr} {node : Node}

/-- The node of a statement becomes void when its parts are done. -/
lemma advances_typeVoid (ha : G.frame.Ahead (node.id :: ns) s) (h : Advances G ns s s1)
    (hr : Runs (typeVoid node) s1.toContext () c) :
    Advances G (node.id :: ns) s { s1 with toContext := c } ∧
      Advances G [node.id] s1 { s1 with toContext := c } ∧
        VoidAt G.size { s1 with toContext := c } node.id := by
  obtain ⟨y, hset⟩ := runs_typeVoid hr
  have hfresh : Fresh G.vars [node.id] s1 := ha.node h
  obtain ⟨hn, -⟩ := hfresh _ (List.mem_singleton_self _)
  have h1 : Advances G [node.id] s1 { s1 with toContext := c } :=
    .of_extends h.footing (h.footing.grounded.extends_place (.setShape hn hset)) fun n hn =>
      (hfresh n hn).2
  refine ⟨(h.trans h1).mono (by simp [or_comm]), h1, y, ?_, ?_, nodeType?_of_setShape hset, ?_⟩
  all_goals
    rw [setShape_of_none hn] at hset
    cases hset
  · exact h.footing.le
  · simp
  · simp [TypeStore.get_alloc]

/-- A node that is void stays what it is when it becomes void once more. -/
lemma advances_typeVoid_again (hs : Footing G s) (hn : VoidAt G.size s node.id)
    (hr : Runs (typeVoid node) s.toContext () c) : Advances G [] s { s with toContext := c } := by
  obtain ⟨y, hset⟩ := runs_typeVoid hr
  obtain ⟨x, -, -, hx, hvoid⟩ := hn
  rw [setShape_of_some hx] at hset
  cases hset
  have hw : Writes (fun _ => False) s.toContext
      { s.toContext with types := s.types.set y .void } := by
    refine ⟨TypeStore.size_set _ _ _, fun z _ => ?_, rfl⟩
    rcases s.types.get_set_cases y z .void with heq | heq
    · by_cases hz : z = y
      · subst hz
        exact heq.trans hvoid.symm
      · exact s.types.get_set_of_ne _ hz
    · exact heq
  exact (Advances.refl hs).writes hw fun _ h => h.elim

/-- Wherever the walk comes to, the rules do what those of the program do. -/
structure Rules.Conforms (r : Rules) (G : Groundwork) (plan : Plan) : Prop where
  covers : plan.Covers G.vars
  value : ∀ {e s}, G.frame.Ahead e.nodes s →
    (r.value e).outcome s = (expr plan (demand plan) e).outcome s
  declare : ∀ {v s}, G.frame.Ahead v.nodes s ∨ v ∈ G.vars ∧ Footing G s →
    (r.declare v).outcome s = (variableDecl plan (demand plan) v).outcome s

lemma Rules.conforms (hp : plan.Covers G.vars) : Rules.Conforms plan G plan :=
  ⟨hp, fun _ => rfl, fun _ => rfl⟩

lemma follows_value (hr : r.Conforms G plan) (ha : G.frame.Ahead e.nodes s) :
    Follows (expr plan (demand plan) e) (r.value e) s fun x s' => Resolves G.frame s e x s' :=
  ⟨hr.value ha, fun _ _ h => resolves_expr (F := G.frame) (advances_demand hr.covers) ha h⟩

lemma follows_returnRule {value : Option Expr} (hr : r.Conforms G plan)
    (ha : G.frame.Ahead (Expr.nodes? value) s) :
    Follows (returnRule plan node value) (returnRule r node value) s
      fun _ s' => Advances G (Expr.nodes? value) s s' := by
  have hmark : ∀ (id : ScopeId) (t : Resolving), Advances G (Expr.nodes? value) s t →
      Follows (modify fun s => { s with toContext := s.toContext.markReturn id } : Resolve Unit)
        (modify fun s => { s with toContext := s.toContext.markReturn id }) t
        fun _ s' => Advances G (Expr.nodes? value) s s' := by
    intro id t hadv
    refine .of_runs fun _ s' h => ?_
    obtain rfl := runs_modify.mp h
    have := hadv.trans (.of_extends hadv.footing (extends_markReturn id hadv.footing.grounded)
      (by simp))
    simpa using this
  refine follows_check_bind fun result c hresult => .get_bind ?_
  obtain ⟨-, -, -, -, -, rfl⟩ := runs_enclosingResult hresult
  dsimp only
  split
  · exact .of_runs fun _ _ h => by simp at h
  · refine (follows_value hr ha).bind fun found s1 h1 => follows_check_bind fun _ c1 hcheck => ?_
    exact hmark _ _ (advances_checkAssignable h1 hcheck)
  · exact .of_runs fun _ _ h => by simp at h
  · exact hmark _ _ (.refl ha.sound)

lemma follows_condition (hr : r.Conforms G plan) (ha : G.frame.Ahead e.nodes s) :
    Follows (condition plan e) (condition r e) s fun _ s' => Advances G e.nodes s s' := by
  refine (follows_value hr ha).bind fun found s1 h1 => .get_bind ?_
  dsimp only
  split
  · exact .pure h1.advances
  · exact .of_runs fun _ _ h => absurd h runs_fail

/-- A local variable gets all its types by its statement. -/
lemma fresh_local {v : VariableDecl} (ha : G.frame.Ahead v.nodes s) :
    Fresh G.vars (v.id :: TypeExpr.nodes? v.type) s ∧
      Fresh G.vars (Expr.nodes? v.value) (s.done v) := by
  have hfresh : Fresh G.vars v.nodes s := ha.fresh
  rw [VariableDecl.nodes, ← List.cons_append] at hfresh
  refine ⟨hfresh.mono fun n => List.mem_append_left _, fun n hn => ?_⟩
  obtain ⟨hnone, hapart⟩ := hfresh n (List.mem_append_right _ hn)
  exact ⟨hnone, fun w hw hwaits => hapart w hw hwaits.of_done⟩

/-- A variable statement: the slot of the variable is new, and void in the end. -/
lemma follows_variableStmt {v : VariableDecl} (hr : r.Conforms G plan)
    (ha : G.frame.Ahead v.nodes s) : Follows (stmt mode plan (.var v)) (stmt mode r (.var v)) s
      fun _ s' => Advances G v.nodes s s' ∧ LocalAt G s' v := by
  have hs : Footing G s := ha.sound
  obtain ⟨hnone, hvalue⟩ := fresh_local ha
  have hvar : Follows (variableDecl plan (demand plan) v) (r.declare v) s
      fun _ s' => SettlesVariable G v s s' :=
    ⟨hr.declare (.inl ha), fun _ _ h => settles_variableDecl (advances_demand hr.covers) hs ha.nodup
      (fun _ => .inr hnone) (fun _ => hvalue) h⟩
  simp only [stmt]
  refine hvar.within.bind fun _ s1 h1 => follows_check fun _ c hvoid => ?_
  have hid := (hnone _ List.mem_cons_self).1
  obtain ⟨y, hy⟩ := h1.typed
  have hloose := h1.slot hid y hy
  obtain ⟨z, hset⟩ := runs_typeVoid hvoid
  have hset : s1.setShape v.id .void = (z, c) := hset
  rw [setShape_of_some hy] at hset
  cases hset
  have hw := Writes.set (P := (· = y)) (c := s1.toContext) rfl .void
  have hle : G.size ≤ y := hs.le.trans hloose.1
  refine ⟨h1.advances.writes hw ?_, ⟨y, hle, hloose.2.1.trans_eq hw.size.symm, hy, ?_⟩,
    fun hr => (h1.inscribed hr hid).writes h1.advances.footing hle hy hw⟩
  · rintro _ rfl
    exact .inl hloose
  · exact (TypeStore.get_set _ _ _ _ hloose.2.1).trans (if_pos rfl)

mutual

/-- **Footprint of a statement.** The variables that it declares are void when it is done. -/
lemma follows_stmt (hr : r.Conforms G plan) : ∀ {st : Stmt} {s : Resolving},
    G.frame.Ahead st.nodes s → Follows (stmt mode plan st) (stmt mode r st) s
      fun _ s' => Advances G st.nodes s s' ∧ ∀ v ∈ st.locals, LocalAt G s' v
  | .expression node value, s, ha => by
    simp only [stmt]
    refine (follows_value hr ha.tail).bind fun x s1 h1 => follows_check fun _ c hvoid => ?_
    exact ⟨(advances_typeVoid ha h1.advances hvoid).1, by simp [Stmt.locals]⟩
  | .var v, s, ha => (follows_variableStmt hr ha).imp fun _ _ h =>
    ⟨h.1, List.forall_mem_singleton.mpr h.2⟩
  | .ret node value, s, ha => by
    simp only [stmt]
    refine (follows_returnRule hr ha.tail).bind fun _ s1 h1 => follows_check fun _ c hvoid => ?_
    exact ⟨(advances_typeVoid ha h1 hvoid).1, by simp [Stmt.locals]⟩
  | .branch node test yes none, s, ha => by
    simp only [Stmt.nodes, List.append_nil] at ha ⊢
    simp only [stmt]
    refine (follows_condition hr ha.tail.left).bind fun _ s1 h1 => ?_
    refine (follows_block hr (ha.tail.right h1)).bind fun _ s2 hb =>
      follows_check fun _ c hvoid => ?_
    obtain ⟨h2, hlocals, -⟩ := hb
    obtain ⟨h3, hlast, -⟩ := advances_typeVoid ha (h1.trans h2) hvoid
    refine ⟨h3, fun v hv => (hlocals v ?_).advances h2.footing hlast⟩
    simpa [Stmt.locals] using hv
  | .branch node test yes (some no), s, ha => by
    simp only [Stmt.nodes] at ha ⊢
    simp only [stmt]
    refine (follows_condition hr ha.tail.left).bind fun _ s1 h1 => ?_
    have ha1 := ha.tail.right h1
    refine (follows_block hr ha1.left).bind fun _ s2 hb => ?_
    obtain ⟨h2, hlocals, -⟩ := hb
    refine (follows_block hr (ha1.right h2)).bind fun _ s3 hb => follows_check fun _ c hvoid => ?_
    obtain ⟨h3, hlocals', -⟩ := hb
    obtain ⟨h4, hlast, -⟩ := advances_typeVoid ha (h1.trans (h2.trans h3)) hvoid
    refine ⟨h4, fun v hv => LocalAt.advances ?_ h3.footing hlast⟩
    simp only [Stmt.locals, List.mem_append] at hv
    rcases hv with hv | hv
    · exact (hlocals v hv).advances h2.footing h3
    · exact hlocals' v hv
  | .loop node test body, s, ha => by
    simp only [Stmt.nodes] at ha ⊢
    simp only [stmt]
    refine (follows_condition hr ha.tail.left).bind fun _ s1 h1 => ?_
    refine (follows_block hr (ha.tail.right h1)).bind fun _ s2 hb =>
      follows_check fun _ c hvoid => ?_
    obtain ⟨h2, hlocals, -⟩ := hb
    obtain ⟨h3, hlast, -⟩ := advances_typeVoid ha (h1.trans h2) hvoid
    exact ⟨h3, fun v hv => (hlocals v hv).advances h2.footing hlast⟩
  | .block b, s, ha => by
    simp only [stmt]
    refine (follows_block hr ha).bind fun _ s1 hb => follows_check fun _ c hvoid => ?_
    obtain ⟨h1, hlocals, hnode⟩ := hb
    have h2 := advances_typeVoid_again h1.footing hnode hvoid
    refine ⟨?_, fun v hv => (hlocals v hv).advances h1.footing h2⟩
    simpa [Stmt.nodes] using h1.trans h2

lemma follows_stmts (hr : r.Conforms G plan) : ∀ {ss : List Stmt} {s : Resolving},
    G.frame.Ahead (Stmt.nodesAll ss) s → Follows (stmts mode plan ss) (stmts mode r ss) s
      fun _ s' => Advances G (Stmt.nodesAll ss) s s' ∧ ∀ v ∈ Stmt.localsAll ss, LocalAt G s' v
  | [], s, ha => by
    simp only [stmts]
    exact .pure ⟨.refl ha.sound, by simp [Stmt.localsAll]⟩
  | st :: rest, s, ha => by
    have ha : G.frame.Ahead (st.nodes ++ Stmt.nodesAll rest) s := ha
    simp only [stmts]
    refine (follows_stmt hr ha.left).bind fun _ s1 h1 => ?_
    refine (follows_stmts hr (ha.right h1.1)).imp fun _ s2 h2 => ⟨h1.1.trans h2.1, ?_⟩
    exact List.forall_mem_append.mpr ⟨fun v hv => (h1.2 v hv).advances h1.1.footing h2.1, h2.2⟩

/-- A block is void as well. -/
lemma follows_block (hr : r.Conforms G plan) : ∀ {b : Block} {s : Resolving},
    G.frame.Ahead b.nodes s → Follows (block mode plan b) (block mode r b) s
      fun _ s' => Advances G b.nodes s s' ∧ (∀ v ∈ b.locals, LocalAt G s' v) ∧ VoidAt G.size s' b.id
  | ⟨node, statements⟩, s, ha => by
    have ha : G.frame.Ahead (node.id :: Stmt.nodesAll statements) s := ha
    simp only [block]
    refine .bind (P := fun _ s' => ∃ s1, Advances G [node.id] s s1 ∧
      G.frame.Ahead (node.id :: Stmt.nodesAll statements) s1 ∧
      Advances G (Stmt.nodesAll statements) s1 s' ∧ ∀ v ∈ Stmt.localsAll statements, LocalAt G s' v)
      (follows_inScope ha.sound (by simp) (fun v hv => (ha.fresh _ List.mem_cons_self).2 v hv)
        fun s1 h1 hsame => ?_) fun _ s3 hbody => follows_check fun _ c hvoid => ?_
    · have ha1 : G.frame.Ahead (node.id :: Stmt.nodesAll statements) s1 :=
        ⟨h1.footing, ha.nodup, fun n hn => ⟨(hsame n).trans (ha.fresh n hn).1,
          fun v hv hw => (ha.fresh n hn).2 v hv (h1.waits hw)⟩⟩
      refine (follows_stmts hr ha1.tail).imp fun _ s2 h2 => ⟨h2.1.footing, fun s' h3 => ?_⟩
      exact ⟨s1, h1, ha1, by simpa using h2.1.trans h3,
        fun v hv => (h2.2 v hv).advances h2.1.footing h3⟩
    · obtain ⟨s1, h1, ha1, h2, hlocals⟩ := hbody
      obtain ⟨h3, hlast, hv⟩ := advances_typeVoid ha1 h2 hvoid
      exact ⟨(h1.trans h3).mono (by simp [Block.nodes]),
        fun v hv => (hlocals v hv).advances h2.footing hlast, hv⟩

end

lemma advances_condition (hp : plan.Covers G.vars) (ha : G.frame.Ahead e.nodes s)
    (h : Runs (condition plan e) s () s') : Advances G e.nodes s s' :=
  (follows_condition (Rules.conforms hp) ha).value _ _ h

lemma advances_stmt (hp : plan.Covers G.vars) (st : Stmt) (ha : G.frame.Ahead st.nodes s)
    (h : Runs (stmt mode plan st) s () s') : Advances G st.nodes s s' :=
  ((follows_stmt (Rules.conforms hp) ha).value _ _ h).1

lemma advances_block {b : Block} (hp : plan.Covers G.vars) (ha : G.frame.Ahead b.nodes s)
    (h : Runs (block mode plan b) s () s') : Advances G b.nodes s s' ∧ VoidAt G.size s' b.id :=
  ((follows_block (Rules.conforms hp) ha).value _ _ h).imp_right And.right

end Resolve

/-! ### Declarations -/

namespace Resolving

variable {G : Groundwork} {ds es : List Decl} {s s1 s' : Resolving}

/-- The walk stands before declarations whose bodies have not been walked through. -/
structure Reached (G : Groundwork) (ds : List Decl) (s : Resolving) : Prop where
  footing : Footing G s
  vars : ∀ v, .var v ∈ ds → v ∈ G.vars
  typed : ∀ d ∈ ds, ∃ x, s.nodeType? d.node.id = some x
  nodup : (ds.flatMap Decl.body).Nodup
  fresh : Fresh G.vars (ds.flatMap Decl.body) s

namespace Reached

lemma left (h : Reached G (ds ++ es) s) : Reached G ds s := by
  obtain ⟨hfooting, hvars, htyped, hnd, hfresh⟩ := h
  rw [List.flatMap_append] at hnd hfresh
  exact ⟨hfooting, fun v hv => hvars v (List.mem_append_left _ hv),
    fun d hd => htyped d (List.mem_append_left _ hd), (List.nodup_append'.mp hnd).1,
    hfresh.mono fun _ hm => List.mem_append_left _ hm⟩

/-- What comes after the declarations that have been walked through. -/
lemma right (h : Reached G (ds ++ es) s) (ha : Advances G (ds.flatMap Decl.visited) s s') :
    Reached G es s' := by
  obtain ⟨-, hvars, htyped, hnd, hfresh⟩ := h
  rw [List.flatMap_append] at hnd hfresh
  obtain ⟨-, hnd2, hdisjoint⟩ := List.nodup_append'.mp hnd
  have hfresh2 : Fresh G.vars (es.flatMap Decl.body) s :=
    hfresh.mono fun _ hm => List.mem_append_right _ hm
  refine ⟨ha.footing, fun v hv => hvars v (List.mem_append_right _ hv), fun d hd => ?_, hnd2,
    hfresh2.advances ha fun n hn hn' => ?_⟩
  · exact (htyped d (List.mem_append_right _ hd)).imp fun x hx => ha.nodeType _ x hx
  · obtain ⟨d, hd, hn⟩ := List.mem_flatMap.mp hn
    rcases List.mem_cons.mp hn with rfl | hn
    · -- the nodes with scopes have types, so that they are no part of a body still to come
      obtain ⟨x, hx⟩ := htyped d (List.mem_append_left _ hd)
      exact absurd ((hfresh2 _ hn').1.symm.trans hx) (by simp)
    · exact hdisjoint (List.mem_flatMap.mpr ⟨d, hd, hn⟩) hn'

/-- The body of a function, once the function has been entered. -/
lemma body {f : FunctionDecl} (h : Reached G [.function f] s) (ha : Advances G [f.id] s s') :
    G.frame.Ahead f.body.nodes s' := by
  have hnd : f.body.nodes.Nodup := by simpa [Decl.body] using h.nodup
  have hfresh : Fresh G.vars f.body.nodes s := by simpa [Decl.body] using h.fresh
  refine ⟨ha.footing, hnd, hfresh.advances ha (List.singleton_disjoint.mpr fun hm => ?_)⟩
  obtain ⟨x, hx⟩ := h.typed _ (List.mem_singleton_self _)
  exact absurd ((hfresh _ hm).1.symm.trans hx) (by simp)

/-- A declaration that the walk stands before is no part of a value still to come. -/
lemma notMem_value (h : Reached G ds s) {d : Decl} (hd : d ∈ ds) :
    ∀ v ∈ G.vars, s.Waits v → d.node.id ∉ Expr.nodes? v.value := by
  intro v hv hw hm
  obtain ⟨x, hx⟩ := h.typed d hd
  exact absurd ((h.footing.waiting v hv hw _ hm).symm.trans hx) (by simp)

end Reached

/-- The returns of the function were checked when its body had been walked through. -/
def Checked (G : Groundwork) (f : FunctionDecl) : Prop :=
  ∃ (s : Resolving) (scope : Option ScopeId), Footing G s ∧
    Runs (Resolve.checkReturns f scope) s.toContext () s.toContext

/-- `s'` is what became of `s` when the declarations had been walked through: the nodes of their
bodies were visited, and scopes were opened for themselves. -/
structure Walked (G : Groundwork) (ds : List Decl) (s s' : Resolving) : Prop where
  advances : Advances G (ds.flatMap Decl.visited) s s'
  locals : ∀ v ∈ ds.flatMap Decl.locals, LocalAt G s' v
  checked : ∀ f, .function f ∈ ds → Checked G f

namespace Walked

lemma entered {d : Decl} (h : Advances G d.visited s s') (hl : d.locals = [])
    (hf : ∀ f, d ≠ .function f) : Walked G [d] s s' :=
  ⟨by simpa using h, by simp [hl], fun f h => absurd (List.mem_singleton.mp h).symm (hf f)⟩

lemma append (h1 : Walked G ds s s1) (h2 : Walked G es s1 s') : Walked G (ds ++ es) s s' := by
  refine ⟨?_, ?_, fun f hf => (List.mem_append.mp hf).elim (h1.checked f) (h2.checked f)⟩
  · rw [List.flatMap_append]
    exact h1.advances.trans h2.advances
  · rw [List.flatMap_append]
    exact List.forall_mem_append.mpr
      ⟨fun v hv => (h1.locals v hv).advances h1.advances.footing h2.advances, h2.locals⟩

lemma left (h : Walked G ds s s1) (ha : Advances G [] s1 s') : Walked G ds s s' :=
  ⟨by simpa using h.advances.trans ha, fun v hv => (h.locals v hv).advances h.advances.footing ha,
    h.checked⟩

end Walked

end Resolving

namespace Resolve

open Context Resolving

variable {G : Groundwork} {plan : Plan} {r : Rules} {mode : ScopeMode} {s s' : Resolving}
  {c : Context} {f : FunctionDecl} {p : Program}

lemma runs_checkReturns {scope : Option ScopeId} {c' : Context}
    (h : Runs (checkReturns f scope) c () c') : c' = c := by
  simp only [checkReturns, runs_bind, runs_get] at h
  obtain ⟨_, _, ⟨rfl, rfl⟩, h⟩ := h
  split at h
  · split at h
    · exact (runs_pure.mp h).2.symm
    · rw [runs_refuse] at h
      obtain ⟨-, h⟩ := h
      split at h
      · exact absurd h runs_fail
      · exact (runs_pure.mp h).2.symm
  · exact (runs_pure.mp h).2.symm

/-- A function opens a scope at its own node. -/
lemma follows_function (hr : r.Conforms G plan) (hs : Reached G [.function f] s) :
    Follows (function mode plan f) (function mode r f) s
      fun _ s' => Walked G [.function f] s s' := by
  refine follows_inScope hs.footing (by simp) (hs.notMem_value (List.mem_singleton_self _))
    fun s1 h1 _ => .get_bind ((follows_block hr (hs.body h1)).bind fun _ s2 hb =>
      follows_check fun _ c hreturns => ?_)
  obtain rfl := runs_checkReturns hreturns
  obtain ⟨h2, hlocals, -⟩ := hb
  refine ⟨h2.footing, fun s' h3 => Walked.left ⟨?_, ?_, ?_⟩ h3⟩
  · rw [List.flatMap_singleton]
    exact h1.trans h2
  · rw [List.flatMap_singleton]
    exact hlocals
  · intro f' hf
    cases List.mem_singleton.mp hf
    exact ⟨_, _, h2.footing, hreturns⟩

mutual

/-- **Footprint of a declaration.** -/
lemma follows_decl (hr : r.Conforms G plan) : ∀ {d : Decl} {s : Resolving}, Reached G d.all s →
    Follows (decl mode plan d) (decl mode r d) s fun _ s' => Walked G d.all s s'
  | .object c, s, hs => by
    simp only [decl]
    exact (follows_object hr hs).within
  | .function f, s, hs => by
    simp only [decl]
    exact (follows_function hr hs).within
  | .var v, s, hs => by
    simp only [decl]
    have hv := hs.vars v (List.mem_singleton_self _)
    refine Follows.within ⟨hr.declare (.inr ⟨hv, hs.footing⟩), fun _ s' h => ?_⟩
    have h1 := advances_planned hr.covers (advances_demand hr.covers) hs.footing hv h
    exact .entered (h1.mono (by simp)) rfl (by simp)
  | .enum _, s, hs | .foreign _, s, hs => by
    simp only [decl]
    exact .pure (.entered ((Advances.refl hs.footing).mono (by simp)) rfl (by simp))

lemma follows_object (hr : r.Conforms G plan) : ∀ {c : ClassDecl} {s : Resolving},
    Reached G (Decl.object c).all s →
      Follows (object mode plan c) (object mode r c) s fun _ s' => Walked G (Decl.object c).all s s'
  | ⟨node, name, base, members⟩, s, hs => by
    have hs : Reached G ([.object ⟨node, name, base, members⟩] ++ Decl.allOf members) s := hs
    simp only [object]
    refine follows_inScope hs.footing (fun _ => hs.typed _ List.mem_cons_self)
      (hs.notMem_value List.mem_cons_self) fun s1 h1 _ => ?_
    refine (follows_decls hr (hs.right h1)).imp fun _ s2 h2 =>
      ⟨h2.advances.footing, fun s' h3 => ?_⟩
    exact Walked.append (.entered h1 rfl (by simp)) (h2.left h3)

lemma follows_decls (hr : r.Conforms G plan) : ∀ {ds : List Decl} {s : Resolving},
    Reached G (Decl.allOf ds) s →
      Follows (decls mode plan ds) (decls mode r ds) s fun _ s' => Walked G (Decl.allOf ds) s s'
  | [], s, hs => by
    simp only [decls]
    exact .pure ⟨.refl hs.footing, by simp [Decl.allOf], by simp [Decl.allOf]⟩
  | d :: rest, s, hs => by
    have hs : Reached G (d.all ++ Decl.allOf rest) s := hs
    simp only [decls]
    refine (follows_decl hr hs.left).bind fun _ s1 h1 => ?_
    exact (follows_decls hr (hs.right h1.advances)).imp fun _ _ h2 => h1.append h2

end

lemma walked_decl {d : Decl} (hp : plan.Covers G.vars) (hs : Reached G d.all s)
    (h : Runs (decl mode plan d) s () s') : Walked G d.all s s' :=
  (follows_decl (Rules.conforms hp) hs).value _ _ h

lemma walked_decls {ds : List Decl} (hp : plan.Covers G.vars) (hs : Reached G (Decl.allOf ds) s)
    (h : Runs (decls mode plan ds) s () s') : Walked G (Decl.allOf ds) s s' :=
  (follows_decls (Rules.conforms hp) hs).value _ _ h

/-- The bodies of functions have no types when the walk begins. -/
lemma Begins.bodies (h : Begins p plan s) (hp : p.Numbered) : (p.allDecls.flatMap Decl.body).Nodup ∧
      Fresh p.variables (p.allDecls.flatMap Decl.body) s := by
  have hsub : ∀ ds : List Decl, (ds.flatMap Decl.body).Sublist (ds.flatMap Decl.inside) := by
    intro ds
    induction ds with
    | nil => exact .slnil
    | cons d rest ih =>
      rw [List.flatMap_cons, List.flatMap_cons]
      refine .append ?_ ih
      cases d <;> first | exact List.nil_sublist _ | exact .refl _
  refine ⟨hp.insides.sublist (hsub _), fun n hn => ?_⟩
  obtain ⟨d, hd, hn⟩ := List.mem_flatMap.mp hn
  have hin : n ∈ d.inside := by
    cases d <;> first | exact absurd hn List.not_mem_nil | exact hn
  refine ⟨h.untyped hp hd n hin, fun v hv _ hm => ?_⟩
  have hne : d ≠ .var v := by
    rintro rfl
    exact absurd hn List.not_mem_nil
  exact hp.insides_apart hd (Program.mem_variables.mp hv) hne hin hm

/-- Before the walk all declarations are still to come. -/
lemma Begins.reached (h : Begins p plan s) (hp : p.Numbered) {r : Prop}
    (hknown : r → s.Named p.layout) :
    Reached (h.groundwork hp r hknown) p.allDecls s := by
  obtain ⟨hnd, hfresh⟩ := h.bodies hp
  refine ⟨h.footing hp r hknown, fun v hv => Program.mem_variables.mpr hv, fun d hd => ?_, hnd,
    hfresh⟩
  exact h.typed _ (List.mem_flatMap.mpr ⟨d, hd, d.node_mem_signature⟩)

/-- The walk over all declarations, from its beginning. -/
lemma Begins.walked (h : Begins p plan s) (hp : p.Numbered) {r : Prop}
    (hknown : r → s.Named p.layout)
    (hr : Runs (decls mode plan p.declarations) s () s') :
    Walked (h.groundwork hp r hknown) p.allDecls s s' :=
  walked_decls (h.covers hp) (h.reached hp hknown) hr

end Resolve

/-! ### Accepted programs -/

namespace Analysis

variable {p : Program} {a : Analysis}

/-- **Local variables are void.** In an accepted program the type of a local variable is void, and
so is that of every expression that refers to it, whatever the variable is annotated with and
whatever its initial value is. -/
theorem local_is_void (hp : p.Numbered) (h : Analysis.standard p = .ok a) :
    ∀ v ∈ a.program.locals, ∃ x, a.context.nodeType? v.id = some x ∧
      ∀ n, a.context.nodeType? n = some x → a.context.shape? n = some .void := by
  obtain ⟨c1, c2, hacc⟩ := accepts_of_standard h
  have hq : a.program.Numbered := hp.hoist.withEntryPoint hacc.arranged
  obtain ⟨plan, s, s', hbegins, hdecls, rfl⟩ :=
    Resolve.begins_of_program hq hacc.collect hacc.resolve
  obtain ⟨g, hg⟩ := hacc.context
  have hwalked := hbegins.walked hq False.elim hdecls
  intro v hv
  obtain ⟨x, -, -, hx, hvoid⟩ := (hwalked.locals v hv).void
  rw [hg]
  refine ⟨x, hx, fun n hn => ?_⟩
  have hshape := congrArg (Option.map s'.types.get) hn
  rwa [Option.map_some, hvoid] at hshape

/-- A function with two local variables, the first with a value, the second annotated. -/
def twoLocals : Program :=
  (StateT.run (m := Id) (do
    let x ← Draft.variableStmt "x" none (some (← Draft.literal (.integer "1")))
    let y ← Draft.variableStmt "y" (some (← Draft.namedType "String" []))
      (some (← Draft.literal (.string "s")))
    let g ← Draft.functionDecl "g" [] none [x, y]
    Draft.program [.function g] []) {}).1

theorem local_is_void_twoLocals : ∃ a, Analysis.standard twoLocals = .ok a ∧
    twoLocals.Numbered ∧ a.program.locals.map (·.name.name) = ["x", "y"] ∧
    ∀ v ∈ a.program.locals, ∃ x, a.context.nodeType? v.id = some x ∧
      ∀ n, a.context.nodeType? n = some x → a.context.shape? n = some .void := by
  have hp : twoLocals.Numbered := ⟨by decide +kernel, by decide +kernel⟩
  obtain ⟨a, ha, hlocals⟩ := exists_of_map_eq (p := twoLocals)
    (f := fun a => a.program.locals.map (·.name.name)) (y := ["x", "y"]) (by decide +kernel)
  exact ⟨a, ha, hp, hlocals, local_is_void hp ha⟩

end Analysis

end Sema
