import Sema.Proofs.Visible

/-!
Name resolution is lexical scoping. Each identifier in the body of a function ends with the slot of
the declaration that its name stands for at that place in the tree: a local variable of a statement
above it, in the innermost block that has one, then a parameter, then a member of a class around
the function or of its base classes, then a declaration of the program. Only a name that stands for
none of these can be that of a class or an enum.
-/

namespace Sema

open Sema.Action Context

/-! ### Identifiers in function bodies -/

/-- An identifier expression, with the names that are visible there, and whether it stands in a
place where the name of a class or an enum could stand. -/
structure Use where
  name : Ident
  orType : Bool
  env : Names

mutual

/-- The identifiers in an expression. What is called, what has a member taken of it and the right
side of `is` may be the name of a type. -/
def Expr.uses (env : Names) (orType : Bool) : Expr → List Use
  | .identifier name => [⟨name, orType, env⟩]
  | .call _ callee arguments => callee.uses env true ++ Expr.usesAll env arguments
  | .binary _ op left right => left.uses env false ++ right.uses env (op = .is)
  | .unary _ _ operand => operand.uses env false
  | .member _ object _ => object.uses env true
  | .index _ array position => array.uses env false ++ position.uses env false
  | .assign _ target value => target.uses env false ++ value.uses env false
  | .array _ elements => Expr.usesAll env elements
  | .record _ fields => FieldValue.usesAll env fields
  | .literal .. | .self _ | .super _ | .shorthand .. => []

def Expr.usesAll (env : Names) : List Expr → List Use
  | [] => []
  | e :: rest => e.uses env false ++ Expr.usesAll env rest

def FieldValue.usesAll (env : Names) : List FieldValue → List Use
  | [] => []
  | ⟨_, _, value⟩ :: rest => value.uses env false ++ FieldValue.usesAll env rest

end

def Expr.uses? (env : Names) (e : Option Expr) : List Use :=
  e.elim [] (Expr.uses env false)

/-- The name that a statement adds to its block. -/
def Stmt.declared : Stmt → List (String × NodeId)
  | .var v => [(v.name.name, v.id)]
  | .expression .. | .ret .. | .branch .. | .loop .. | .block _ => []

mutual

/-- The identifiers in a statement. A variable is not visible in its own value. -/
def Stmt.uses (env : Names) : Stmt → List Use
  | .expression _ value => value.uses env false
  | .var v => Expr.uses? env v.value
  | .ret _ value => Expr.uses? env value
  | .branch _ test yes no => test.uses env false ++ (yes.uses env ++ match no with
    | some other => other.uses env
    | none => [])
  | .loop _ test body => test.uses env false ++ body.uses env
  | .block b => b.uses env

/-- Each statement sees what the statements above it in its block have declared. -/
def Stmt.usesAll (here : List (String × NodeId)) (env : Names) : List Stmt → List Use
  | [] => []
  | st :: rest => st.uses (here :: env) ++ Stmt.usesAll (here ++ st.declared) env rest

def Block.uses (env : Names) : Block → List Use
  | ⟨_, statements⟩ => Stmt.usesAll [] env statements

end

mutual

/-- The identifiers in the functions of a declaration. -/
def Decl.uses (p : Program) (env : Names) : Decl → List Use
  | .object o => o.uses p env
  | .function f => f.body.uses (Parameter.fields f.parameters :: env)
  | .var _ | .enum _ | .foreign _ => []

def ClassDecl.uses (p : Program) (env : Names) : ClassDecl → List Use
  | ⟨_, name, _, members⟩ => Decl.usesAll p (p.classNames name.name ++ env) members

def Decl.usesAll (p : Program) (env : Names) : List Decl → List Use
  | [] => []
  | d :: rest => d.uses p env ++ Decl.usesAll p env rest

end

/-- The identifiers in the functions of a program. -/
def Program.uses (p : Program) : List Use :=
  Decl.usesAll p [Decl.names p.declarations .value] p.declarations

/-- Two nodes have one slot. -/
def Context.SameSlot (c : Context) (n m : NodeId) : Prop :=
  ∃ x, c.nodeType? n = some x ∧ c.nodeType? m = some x

/-- The identifier has the slot of what its name stands for, and that of a class or an enum only if
its name stands for nothing else. -/
def Use.Denotes (p : Program) (c : Context) (u : Use) : Prop :=
  match u.env.find? u.name.name with
  | some d => c.SameSlot u.name.id d
  | none => u.orType = true ∧ ∃ d ∈ p.allDecls, d.typeName? = some u.name.name ∧
    c.SameSlot u.name.id d.node.id

/-- The name, and how many scopes further out it is found. -/
def Use.distance (u : Use) : String × Option Nat :=
  (u.name.name, u.env.findIdx? fun es => (lastNamed u.name.name es).isSome)

lemma Use.Denotes.mono {p : Program} {c c' : Context} {u : Use} (h : u.Denotes p c)
    (hn : ∀ n x, c.nodeType? n = some x → c'.nodeType? n = some x) : u.Denotes p c' := by
  have hsame : ∀ {n m}, c.SameSlot n m → c'.SameSlot n m :=
    fun ⟨x, hx, hy⟩ => ⟨x, hn _ x hx, hn _ x hy⟩
  unfold Use.Denotes at h ⊢
  split at h
  · exact hsame h
  · obtain ⟨htype, d, hd, hname, hslot⟩ := h
    exact ⟨htype, d, hd, hname, hsame hslot⟩

/-! ### Nodes that are still to come -/

namespace Setting

open Resolving

variable {G : Setting} {s s' : Resolving} {ms ns : List NodeId} {n : NodeId} {env : Names}

/-- The nodes have no types yet, and have no scopes from the first walk. -/
structure Ahead (G : Setting) (ns : List NodeId) (s : Resolving) : Prop where
  nodup : ns.Nodup
  fresh : Fresh G.groundwork.vars ns s
  apart : ∀ n ∈ G.program.id :: G.program.allDecls.map (·.node.id), n ∉ ns

namespace Ahead

lemma ahead (h : G.Ahead ns s) (hs : Footing G.groundwork s) : G.groundwork.frame.Ahead ns s :=
  ⟨hs, h.nodup, h.fresh⟩

lemma sublist (h : G.Ahead ns s) (hsub : ms.Sublist ns) : G.Ahead ms s :=
  ⟨h.nodup.sublist hsub, h.fresh.mono fun _ hm => hsub.subset hm,
    fun n hn hm => h.apart n hn (hsub.subset hm)⟩

lemma tail (h : G.Ahead (n :: ns) s) : G.Ahead ns s :=
  h.sublist (List.sublist_cons_self n ns)

lemma left (h : G.Ahead (ms ++ ns) s) : G.Ahead ms s :=
  h.sublist (List.sublist_append_left ms ns)

lemma right (h : G.Ahead (ms ++ ns) s) (ha : Advances G.groundwork ms s s') : G.Ahead ns s' := by
  have hns := h.sublist (List.sublist_append_right ms ns)
  exact { hns with fresh := hns.fresh.advances ha (List.nodup_append'.mp h.nodup).2.2 }

end Ahead

/-! ### What is visible during the walk -/

/-- A state of the walk in which the names in `env` are visible. -/
structure Sight (G : Setting) (env : Names) (s : Resolving) : Prop where
  stands : G.Stands s.toContext
  footing : Footing G.groundwork s
  views : ∃ k, s.current? = some k ∧ Views G.program s.toContext k env

namespace Sight

lemma declarationOf? (h : G.Sight env s) (name : String) :
    s.declarationOf? name .value = env.find? name := by
  obtain ⟨k, hk, hviews⟩ := h.views
  exact hviews.declarationOf? (h.stands.classScopes h.footing) G.numbered.toNumbered G.distinct hk
    name

lemma keeps (h : G.Sight env s) (hk : KeepsScopes ns s.toContext s'.toContext)
    (hf : Footing G.groundwork s')
    (hns : ∀ n ∈ G.program.id :: G.program.allDecls.map (·.node.id), n ∉ ns) : G.Sight env s' := by
  have hstands := h.stands.keeps hk hns
  obtain ⟨k, hcurrent, hviews⟩ := h.views
  refine ⟨hstands, hf, k, ?_, ?_⟩
  · rw [current?, hk.stack]
    exact hcurrent
  · refine hviews.congr (fun id hid => hk.view id (hid.trans_lt hviews.lt)) fun o ho => ?_
    exact (hstands.object ho).trans (h.stands.object ho).symm

lemma same (h : G.Sight env s) (hs : SameScopes s.toContext s'.toContext)
    (hf : Footing G.groundwork s') : G.Sight env s' := by
  have hk : KeepsScopes [] s.toContext s'.toContext := .of_same hs
  exact h.keeps hk hf (by simp)

end Sight

end Setting

/-! ### Expressions -/

namespace Resolve

open Resolving Setting

variable {G : Setting} {s s1 s' : Resolving} {x : Slot} {env : Names} {e : Expr} {b : Bool}

lemma same_expr (h : G.Sight env s) (hr : Runs (expr G.plan (demand G.plan) e) s x s') :
    SameScopes s.toContext s'.toContext := by
  have hquiet : Quiet G.plan s.toContext s'.toContext := (quiet_expr G.plan e).of_runs hr
  exact hquiet h.stands.outside

lemma resolves_in (h : G.Sight env s) (ha : G.Ahead e.nodes s)
    (hr : Runs (expr G.plan (demand G.plan) e) s x s') :
    Advances G.groundwork e.nodes s s' ∧ G.Sight env s' := by
  have hadv := footprint_expr (advances_demand G.covers) (ha.ahead h.footing) hr
  exact ⟨hadv, h.same (same_expr h hr) hadv.footing⟩

lemma resolves_operand (h : G.Sight env s) (ha : G.Ahead e.nodes s)
    (hr : Runs (operandOrType e (expr G.plan (demand G.plan) e)) s (x, b) s') :
    Advances G.groundwork e.nodes s s' ∧ G.Sight env s' := by
  have hadv := footprint_operandOrType (advances_demand G.covers) (ha.ahead h.footing) hr
  have hquiet : Quiet G.plan s.toContext s'.toContext :=
    (within_operandOrType e (quiet_expr G.plan e)).of_runs hr
  exact ⟨hadv, h.same (hquiet h.stands.outside) hadv.footing⟩

/-- An identifier that stands for a value. -/
lemma names_identifier {name : Ident} (h : G.Sight env s) (ha : G.Ahead [name.id] s)
    (hr : Runs (identifier (demand G.plan) name) s x s') :
    Use.Denotes G.program s'.toContext ⟨name, b, env⟩ := by
  obtain ⟨d, s1, y, c1, c2, hdecl, hdemand, hslot, hb, rfl⟩ := runs_identifier hr
  have h1 := advances_demand G.covers h.footing hdemand
  obtain ⟨z, hz⟩ := h.footing.grounded.declaration hdecl
  rw [slotOf_of_some (h1.nodeType d z hz)] at hslot
  cases hslot
  have hnone := (ha.fresh.advances h1 (by simp) _ (List.mem_singleton_self _)).1
  have hgrows : Grows (fun _ => True) s1.toContext c2 :=
    (Check.within_bindNode _ _).of_runs (Check.runs_bindNode.mpr hb)
  have hx := nodeType?_of_bind hb
  rw [bind_of_none hnone] at hb
  cases hb
  rw [h.declarationOf?] at hdecl
  rw [Use.Denotes, hdecl]
  exact ⟨x, hx, hgrows.nodeType d x (h1.nodeType d x hz)⟩

/-- An operand that may be the name of a type. -/
lemma names_operand (h : G.Sight env s) (ha : G.Ahead e.nodes s)
    (hexpr : ∀ {x s'}, Runs (expr G.plan (demand G.plan) e) s x s' →
      ∀ u ∈ e.uses env true, u.Denotes G.program s'.toContext)
    (hr : Runs (operandOrType e (expr G.plan (demand G.plan) e)) s (x, b) s') :
    ∀ u ∈ e.uses env true, u.Denotes G.program s'.toContext := by
  rcases runs_operandOrType hr with ⟨-, hr⟩ |
    ⟨-, name, d, y, c1, c2, rfl, hnone, hd, hslot, hb, rfl⟩
  · exact hexpr hr
  · obtain ⟨z, hz⟩ := h.footing.grounded.declaration hd
    rw [slotOf_of_some hz] at hslot
    cases hslot
    have hnew := (ha.fresh _ List.mem_cons_self).1
    have hgrows : Grows (fun _ => True) s.toContext c2 :=
      (Check.within_bindNode _ _).of_runs (Check.runs_bindNode.mpr hb)
    have hx := nodeType?_of_bind hb
    rw [bind_of_none hnew] at hb
    cases hb
    -- the symbol that was found belongs to a class or an enum
    obtain ⟨symbol, id, sc, hsc, hmem, hkind, hname, rfl⟩ := exists_of_declarationOf? hd
    have htag := h.footing.symbols symbol hkind ⟨id, sc, hsc, hmem⟩
    obtain ⟨d, hdecl, htag⟩ := List.mem_flatMap.mp htag
    obtain ⟨htype, hnode⟩ := Program.typeName?_of_tag htag
    rw [h.declarationOf?] at hnone
    refine List.forall_mem_singleton.mpr ?_
    rw [Use.Denotes, hnone]
    refine ⟨rfl, d, hdecl, htype.trans (congrArg some hname), x, hx, ?_⟩
    rw [← hnode]
    exact hgrows.nodeType _ x hz

mutual

/-- **Identifiers in an expression** have the slots of what they stand for. -/
lemma names_expr : ∀ {e : Expr} {s s' : Resolving} {x : Slot} {b : Bool}, G.Sight env s →
    G.Ahead e.nodes s → Runs (expr G.plan (demand G.plan) e) s x s' →
      ∀ u ∈ e.uses env b, u.Denotes G.program s'.toContext
  | .literal .., _, _, _, _, _, _, _ | .self _, _, _, _, _, _, _, _ | .super _, _, _, _, _, _, _, _
  | .shorthand .., _, _, _, _, _, _, _ => by simp [Expr.uses]
  | .identifier name, s, s', x, b, h, ha, hr =>
    List.forall_mem_singleton.mpr (names_identifier h ha hr)
  | .call node callee arguments, s, s', x, b, h, ha, hr => by
    obtain ⟨y, isType, s1, hcallee, hrest⟩ := runs_expr_call hr
    have hcallee' := names_operand h ha.tail.left (names_expr h ha.tail.left) hcallee
    obtain ⟨h1, hs1⟩ := resolves_operand h ha.tail.left hcallee
    rcases hrest with ⟨-, rfl, -, c1, hb, rfl⟩ | ⟨-, r, params, s2, c1, -, hlength, hargs, hb, rfl⟩
    · have hgrows : Grows (fun _ => True) s1.toContext c1 :=
        (Check.within_bindNode _ _).of_runs (Check.runs_bindNode.mpr hb)
      intro u hu
      rw [Expr.uses, Expr.usesAll, List.append_nil] at hu
      exact (hcallee' u hu).mono hgrows.nodeType
    · have hargs' := names_arguments hs1 (ha.tail.right h1) hlength hargs
      have h2 := footprint_callArguments (advances_demand G.covers)
        ((ha.tail.right h1).ahead h1.footing) hargs
      have hgrows : Grows (fun _ => True) s2.toContext c1 :=
        (Check.within_bindNode _ _).of_runs (Check.runs_bindNode.mpr hb)
      refine List.forall_mem_append.mpr ⟨fun u hu => ?_, fun u hu => ?_⟩
      · exact ((hcallee' u hu).mono h2.nodeType).mono hgrows.nodeType
      · exact (hargs' u hu).mono hgrows.nodeType
  | .binary node op left right, s, s', x, b, h, ha, hr => by
    obtain ⟨l, r, s1, s2, c1, hl, hoperand, hrule, rfl⟩ := runs_expr_binary hr
    have hleft := names_expr (b := false) h ha.tail.left hl
    obtain ⟨h1, hs1⟩ := resolves_in h ha.tail.left hl
    have ha2 := ha.tail.right h1
    obtain ⟨hright, h2⟩ : (∀ u ∈ right.uses env (op = .is), u.Denotes G.program s2.toContext) ∧
        Advances G.groundwork right.nodes s1 s2 := by
      rcases hoperand with hvalue | ⟨isType, rfl, htype⟩
      · exact ⟨names_expr hs1 ha2 hvalue, (resolves_in hs1 ha2 hvalue).1⟩
      · have huses := names_operand hs1 ha2 (names_expr hs1 ha2) htype
        exact ⟨by simpa using huses, (resolves_operand hs1 ha2 htype).1⟩
    have hgrows : Grows (fun _ => True) s2.toContext c1 :=
      (within_binaryRule _ _ _ _ _ _).of_runs hrule
    refine List.forall_mem_append.mpr ⟨fun u hu => ?_, fun u hu => ?_⟩
    · exact ((hleft u hu).mono h2.nodeType).mono hgrows.nodeType
    · exact (hright u hu).mono hgrows.nodeType
  | .unary node op operand, s, s', x, b, h, ha, hr => by
    obtain ⟨y, s1, c1, he, hrule, rfl⟩ := runs_expr_unary hr
    have hgrows : Grows (fun _ => True) s1.toContext c1 :=
      (within_unaryRule _ _ _ _).of_runs hrule
    exact fun u hu => (names_expr h ha.tail he u hu).mono hgrows.nodeType
  | .member node object name, s, s', x, b, h, ha, hr => by
    obtain ⟨y, isType, s1, ho, hrest⟩ := runs_expr_member hr
    have hobject := names_operand h ha.tail (names_expr h ha.tail) ho
    have hgrows : Grows (fun _ => True) s1.toContext s'.toContext := by
      rcases hrest with ⟨-, c1, hb, rfl⟩ | ⟨-, hrule⟩
      · exact (Check.within_bindNode _ _).of_runs (Check.runs_bindNode.mpr hb)
      · exact (within_memberRule G.plan (within_demand G.plan) _ _ _ _).of_runs
          hrule
    exact fun u hu => (hobject u hu).mono hgrows.nodeType
  | .index node array position, s, s', x, b, h, ha, hr => by
    obtain ⟨a, q, s1, s2, c1, harray, hposition, hrule, rfl⟩ := runs_expr_index hr
    have hleft := names_expr (b := false) h ha.tail.left harray
    obtain ⟨h1, hs1⟩ := resolves_in h ha.tail.left harray
    have hright := names_expr (b := false) hs1 (ha.tail.right h1) hposition
    obtain ⟨h2, -⟩ := resolves_in hs1 (ha.tail.right h1) hposition
    have hgrows : Grows (fun _ => True) s2.toContext c1 :=
      (within_indexRule _ _ _ _ _).of_runs hrule
    refine List.forall_mem_append.mpr ⟨fun u hu => ?_, fun u hu => ?_⟩
    · exact ((hleft u hu).mono h2.nodeType).mono hgrows.nodeType
    · exact (hright u hu).mono hgrows.nodeType
  | .assign node target value, s, s', x, b, h, ha, hr => by
    obtain ⟨t, v, s1, s2, c1, htarget, hvalue, hrule, rfl⟩ := runs_expr_assign hr
    have hleft := names_expr (b := false) h ha.tail.left htarget
    obtain ⟨h1, hs1⟩ := resolves_in h ha.tail.left htarget
    have hright := names_expr (b := false) hs1 (ha.tail.right h1) hvalue
    obtain ⟨h2, -⟩ := resolves_in hs1 (ha.tail.right h1) hvalue
    have hgrows : Grows (fun _ => True) s2.toContext c1 :=
      (within_assignRule _ _ _ _).of_runs hrule
    refine List.forall_mem_append.mpr ⟨fun u hu => ?_, fun u hu => ?_⟩
    · exact ((hleft u hu).mono h2.nodeType).mono hgrows.nodeType
    · exact (hright u hu).mono hgrows.nodeType
  | .array node elements, s, s', x, b, h, ha, hr => by
    obtain ⟨slots, s1, c1, hes, hrule, rfl⟩ := runs_expr_array hr
    have hgrows : Grows (fun _ => True) s1.toContext c1 :=
      (within_arrayRule _ _ _).of_runs hrule
    exact fun u hu => (names_exprs h ha.tail hes u hu).mono hgrows.nodeType
  | .record node values, s, s', x, b, h, ha, hr => by
    obtain ⟨slots, s1, c1, hvs, hset, rfl⟩ := runs_expr_record hr
    have hgrows : Grows (fun _ => True) s1.toContext c1 :=
      (Check.within_setShape trivial).of_runs (Check.runs_setShape.mpr hset)
    exact fun u hu => (names_fieldValues h ha.tail hvs u hu).mono hgrows.nodeType

lemma names_exprs : ∀ {es : List Expr} {s s' : Resolving} {slots : List Slot}, G.Sight env s →
    G.Ahead (Expr.nodesAll es) s → Runs (exprs G.plan (demand G.plan) es) s slots s' →
      ∀ u ∈ Expr.usesAll env es, u.Denotes G.program s'.toContext
  | [], _, _, _, _, _, _ => by simp [Expr.usesAll]
  | e :: rest, s, s', slots, h, ha, hr => by
    obtain ⟨x, s1, xs, he, hrest, -⟩ := runs_exprs_cons.mp hr
    obtain ⟨h1, hs1⟩ := resolves_in h ha.left he
    have h2 := footprint_exprs (advances_demand G.covers) ((ha.right h1).ahead h1.footing) hrest
    refine List.forall_mem_append.mpr ⟨fun u hu => ?_, names_exprs hs1 (ha.right h1) hrest⟩
    exact (names_expr h ha.left he u hu).mono h2.nodeType

lemma names_fieldValues : ∀ {vs : List FieldValue} {s s' : Resolving}
    {slots : List (String × Slot)}, G.Sight env s → G.Ahead (FieldValue.nodesAll vs) s →
    Runs (fieldValues G.plan (demand G.plan) vs) s slots s' →
      ∀ u ∈ FieldValue.usesAll env vs, u.Denotes G.program s'.toContext
  | [], _, _, _, _, _, _ => by simp [FieldValue.usesAll]
  | ⟨node, name, e⟩ :: rest, s, s', slots, h, ha, hr => by
    obtain ⟨x, s1, xs, he, hrest, -⟩ := runs_fieldValues_cons.mp hr
    obtain ⟨h1, hs1⟩ := resolves_in h ha.left he
    have h2 := footprint_fieldValues (advances_demand G.covers) ((ha.right h1).ahead h1.footing)
      hrest
    refine List.forall_mem_append.mpr ⟨fun u hu => ?_, names_fieldValues hs1 (ha.right h1) hrest⟩
    exact (names_expr h ha.left he u hu).mono h2.nodeType

/-- Every argument is resolved, since there are as many parameters. -/
lemma names_arguments {callee : String} : ∀ {arguments : List Expr} {params : List (String × Slot)}
    {i : Nat} {s s' : Resolving}, G.Sight env s → G.Ahead (Expr.nodesAll arguments) s →
    params.length = arguments.length →
    Runs (callArguments G.plan (demand G.plan) callee i arguments params) s () s' →
      ∀ u ∈ Expr.usesAll env arguments, u.Denotes G.program s'.toContext
  | [], _, _, _, _, _, _, _, _ => by simp [Expr.usesAll]
  | _ :: _, [], _, _, _, _, _, hlength, _ => by simp at hlength
  | e :: rest, (p, expected) :: params, i, s, s', h, ha, hlength, hr => by
    obtain ⟨found, s1, c1, site, he, hcheck, hrest⟩ := runs_callArguments_cons hr
    obtain ⟨-, hs1⟩ := resolves_in h ha.left he
    have h2 := footprint_checked (advances_demand G.covers) (ha.left.ahead h.footing) he hcheck
    have hsame : SameScopes s1.toContext c1 := (within_checkAssignable _ _ _ _).of_runs hcheck
    have hgrows : Grows (fun _ => True) s1.toContext c1 :=
      (within_checkAssignable _ _ _ _).of_runs hcheck
    have hs2 : G.Sight env { s1 with toContext := c1 } := hs1.same hsame h2.footing
    have h3 := footprint_callArguments (advances_demand G.covers) ((ha.right h2).ahead h2.footing)
      hrest
    refine List.forall_mem_append.mpr ⟨fun u hu => ?_, ?_⟩
    · exact ((names_expr h ha.left he u hu).mono hgrows.nodeType).mono h3.nodeType
    · exact names_arguments hs2 (ha.right h2) (Nat.succ.inj hlength) hrest

end

end Resolve

/-! ### Statements -/

namespace Context

variable {c c' : Context} {ns : List NodeId} {id : ScopeId}

/-- A scope that was opened again is closed. -/
lemma KeepsScopes.reopened (h : KeepsScopes ns { c with stack := id :: c.stack } c') :
    KeepsScopes ns c c'.closeScope :=
  { h with stack := by rw [closeScope, h.stack]; rfl }

/-- A function is marked as one that returns. -/
lemma keeps_markReturn (c : Context) (id : ScopeId) : KeepsScopes ns c (c.markReturn id) := by
  refine ⟨rfl, by simp [markReturn, modifyScope], fun k _ => ?_, fun _ _ => rfl⟩
  rw [view?, markReturn, scope?_modifyScope]
  split
  · next heq =>
    subst heq
    rw [view?, Option.map_map]
    rfl
  · rfl

/-- A block always gets a new scope. -/
lemma runs_enter_body {n : NodeId} {l : Location}
    (h : Runs (ScopeMode.reopen.enter .body n l) c () c') : c' = (c.openScope .body n).2 := by
  unfold Runs at h
  rw [ScopeMode.outcome_enter, if_neg (by simp), if_neg (by simp [ScopeMode.mustReopen])] at h
  cases h
  rfl

end Context

namespace Setting

open Resolving

variable {G : Setting} {s s' : Resolving} {ms ns : List NodeId} {n : NodeId} {env : Names}
  {here es : List (String × NodeId)} {k : ScopeId}

/-- A state of the walk in a block with the scope `k`, when the names in `here` have been declared
in the block. -/
structure InBlock (G : Setting) (here : List (String × NodeId)) (env : Names) (k : ScopeId)
    (s : Resolving) : Prop where
  stands : G.Stands s.toContext
  footing : Footing G.groundwork s
  new : G.start.scopes.size ≤ k
  current : s.current? = some k
  scope : ∃ k' n, s.ScopeAt k .body (some k') n ∧ k' < k ∧
    Views G.program s.toContext k' env
  names : ∀ name, s.toContext.declared? k name .value = lastNamed name here

namespace InBlock

lemma sight (h : G.InBlock here env k s) : G.Sight (here :: env) s := by
  obtain ⟨k', n, hat, hlt, hviews⟩ := h.scope
  exact ⟨h.stands, h.footing, k, h.current, .scope hat (by simp) h.names hlt hviews⟩

lemma lt (h : G.InBlock here env k s) : k < s.scopes.size := by
  obtain ⟨k', n, hat, -⟩ := h.scope
  exact hat.lt

/-- A statement without a declaration. -/
lemma opens (h : G.InBlock here env k s) (hk : KeepsScopes ns s.toContext s'.toContext) :
    Opens k ns (namesOf .value []) s.toContext s'.toContext :=
  (hk.opens h.lt).mono (fun _ h => h) fun kind => by simp [noNames, namesOf]

/-- The block after one more statement. -/
lemma next (h : G.InBlock here env k s)
    (ho : Opens k ns (namesOf .value es) s.toContext s'.toContext) (hf : Footing G.groundwork s')
    (hns : ∀ n ∈ G.program.id :: G.program.allDecls.map (·.node.id), n ∉ ns) :
    G.InBlock (here ++ es) env k s' := by
  have hstands := h.stands.opens ho h.new hns
  obtain ⟨k', n, hat, hlt, hviews⟩ := h.scope
  refine ⟨hstands, hf, h.new, ho.current.trans h.current, ⟨k', n, ho.own _ _ _ hat, hlt, ?_⟩, ?_⟩
  · refine hviews.congr (fun id hid => ?_) fun o ho => ?_
    · exact ho.others id (hid.trans_lt hviews.lt) (hid.trans_lt hlt).ne
    · exact (hstands.object ho).trans (h.stands.object ho).symm
  · intro name
    rw [ho.names, h.names, lastNamed_append]
    simp [namesOf]

end InBlock

/-- A block begins with no names of its own. -/
lemma Sight.enter (h : G.Sight env s) (ha : G.Ahead [n] s) {l : Location} {c : Context}
    (hr : Runs (ScopeMode.reopen.enter .body n l) s.toContext () c) :
    c = (s.openScope .body n).2 ∧ G.InBlock [] env s.scopes.size { s with toContext := c } ∧
      Advances G.groundwork [n] s { s with toContext := c } := by
  obtain ⟨k, hcurrent, hviews⟩ := h.views
  have hadv : Advances G.groundwork [n] s { s with toContext := c } :=
    .of_extends h.footing (Resolve.extends_enter h.footing.grounded (by simp) hr)
      fun m hm => (ha.fresh m hm).2
  obtain rfl := runs_enter_body hr
  have hview : ∀ id, id < s.scopes.size → (s.openScope .body n).2.view? id = s.view? id :=
    fun id hid => view?_openScope.trans (if_neg hid.ne)
  have hscope : ∀ m ∈ G.program.id :: G.program.allDecls.map (·.node.id),
      (s.openScope .body n).2.scopeOf? m = s.scopeOf? m := by
    intro m hm
    have hne : m ≠ n := fun heq => ha.apart m hm (by simp [heq])
    exact (Table.get?_insert _ _ _ _).trans (if_neg hne)
  have hstands : G.Stands (s.openScope .body n).2 := by
    refine ⟨h.stands.size_le.trans (by simp [openScope]), fun id hid => ?_, fun m hm => ?_⟩
    · exact (hview id (hid.trans_le h.stands.size_le)).trans (h.stands.view id hid)
    · exact (hscope m hm).trans (h.stands.scopeOf m hm)
  refine ⟨rfl, ⟨hstands, hadv.footing, h.stands.size_le, rfl, ⟨k, n, ?_, hviews.lt, ?_⟩, ?_⟩, hadv⟩
  · exact ⟨_, view?_openScope.trans (if_pos rfl), rfl, hcurrent, rfl⟩
  · refine hviews.congr (fun id hid => hview id (hid.trans_lt hviews.lt)) fun o ho => ?_
    exact (hstands.object ho).trans (h.stands.object ho).symm
  · intro name
    rw [declared?, view?_openScope, if_pos rfl]
    rfl

end Setting

namespace Resolve

open Resolving Setting

variable {G : Setting} {s s1 s' : Resolving} {env : Names} {here : List (String × NodeId)}
  {k : ScopeId} {us : List Use} {ns : List NodeId} {c : Context} {c' : Context} {node : Node}
  {v : VariableDecl}

/-- The last step of a statement. -/
lemma names_typeVoid {p : Program} {c1 : Context} (hu : ∀ u ∈ us, u.Denotes p c1)
    (hk : KeepsScopes ns c c1) (hr : Runs (typeVoid node) c1 () c') :
    (∀ u ∈ us, u.Denotes p c') ∧ KeepsScopes ns c c' := by
  obtain ⟨y, hset⟩ := runs_typeVoid hr
  have hgrows : Grows (fun _ => True) c1 c' :=
    (Check.within_setShape trivial).of_runs (Check.runs_setShape.mpr hset)
  have hlast : KeepsScopes [] c1 c' := .of_same (Collect.same_setShape hset)
  exact ⟨fun u h => (hu u h).mono hgrows.nodeType, (hk.trans hlast).mono (by simp)⟩

lemma names_condition {e : Expr} (h : G.Sight env s) (ha : G.Ahead e.nodes s)
    (hr : Runs (condition G.plan e) s () s') :
    (∀ u ∈ e.uses env false, u.Denotes G.program s'.toContext) ∧
      Advances G.groundwork e.nodes s s' ∧ G.Sight env s' ∧
        SameScopes s.toContext s'.toContext := by
  obtain ⟨found, he, -⟩ := runs_condition hr
  obtain ⟨h1, hs1⟩ := resolves_in h ha he
  exact ⟨names_expr h ha he, h1, hs1, same_expr h he⟩

lemma names_returnRule {value : Option Expr} (h : G.Sight env s)
    (ha : G.Ahead (Expr.nodes? value) s) (hr : Runs (returnRule G.plan node value) s () s') :
    (∀ u ∈ Expr.uses? env value, u.Denotes G.program s'.toContext) ∧
      KeepsScopes (Expr.nodes? value) s.toContext s'.toContext := by
  obtain ⟨id, sc, r, ps, -, -, -, hr⟩ := runs_returnRule hr
  rcases hr with ⟨rfl, -, rfl⟩ | ⟨e, found, s1, c1, rfl, -, he, hcheck, rfl⟩
  · exact ⟨by simp [Expr.uses?], keeps_markReturn _ id⟩
  · have hgrows : Grows (fun _ => True) s1.toContext c1 :=
      (within_checkAssignable _ _ _ _).of_runs hcheck
    have hsame : SameScopes s1.toContext c1 := (within_checkAssignable _ _ _ _).of_runs hcheck
    refine ⟨fun u hu => (names_expr h ha he u hu).mono hgrows.nodeType, ?_⟩
    have hkeeps : KeepsScopes [] s.toContext c1 := .of_same ((same_expr h he).trans hsame)
    have hmark : KeepsScopes [] c1 (c1.markReturn id) := keeps_markReturn c1 id
    exact (hkeeps.trans hmark).mono (by simp)

/-- A variable that gets its slot and its annotation. -/
lemma same_prepares {y : Slot} (h : Prepares v c y c') : SameScopes c c' := by
  obtain ⟨c1, hslot, h⟩ := h
  have h1 : SameScopes c c1 := (Check.within_slotOf _).of_runs (Check.runs_slotOf.mpr hslot)
  rcases h with ⟨-, rfl⟩ | ⟨type, declared, c2, -, hresolve, rfl⟩
  · exact h1
  · have h2 : SameScopes c1 c2 := (TypeExpr.within_resolve _ _).of_runs hresolve
    exact h1.trans ⟨h2.scopes, h2.stack, h2.nodeScopes⟩

/-- The value of a local variable. -/
lemma names_variableType (h : G.Sight env s) (ha : G.Ahead v.nodes s)
    (hr : Runs (variableType G.plan (demand G.plan) v) (s.begun v) () s') :
    ∀ u ∈ Expr.uses? env v.value, u.Denotes G.program s'.toContext := by
  obtain ⟨y, c, hprepares, hr⟩ := runs_variableType hr
  have hdue : Fresh G.groundwork.vars (v.id :: TypeExpr.nodes? v.type) s :=
    ha.fresh.mono fun n hn => List.mem_append_left _ hn
  have hp : Prepared G.groundwork v s y c := prepared h.footing ha.nodup (.inr hdue) hprepares
  rcases hr with ⟨hvalue, -, rfl⟩ | ⟨e, found, s2, hvalue, he, hr⟩
  · simp [hvalue, Expr.uses?]
  · have hahead : G.Ahead e.nodes ({ s with toContext := c }.begun v) := by
      have hnodes : v.nodes = (v.id :: TypeExpr.nodes? v.type) ++ e.nodes := by
        rw [VariableDecl.nodes, hvalue]
        rfl
      rw [hnodes] at ha
      have hdone := ha.right hp.advances
      exact { hdone with fresh := fun n hn => ⟨(hdone.fresh n hn).1,
        fun w hw hwaits => (hdone.fresh n hn).2 w hw (waits_begun.mp hwaits)⟩ }
    have hsight : G.Sight env ({ s with toContext := c }.begun v) :=
      h.same (same_prepares hprepares) (footing_begun hp.advances.footing)
    have huses := names_expr (b := false) hsight hahead he
    have hgrows : Grows (fun _ => True) s2.toContext s'.toContext := by
      rcases hr with ⟨-, c3, hcheck, rfl⟩ | ⟨-, rfl⟩
      · exact (within_checkAssignable _ _ _ _).of_runs hcheck
      · exact Retypes.assign y found
    rw [hvalue]
    exact fun u hu => (huses u hu).mono hgrows.nodeType

/-- A local variable is declared in its block when its value has been resolved. -/
lemma names_variableStmt (h : G.InBlock here env k s) (ha : G.Ahead v.nodes s)
    (hr : Runs (stmt .reopen G.plan (.var v)) s () s') :
    (∀ u ∈ Expr.uses? (here :: env) v.value, u.Denotes G.program s'.toContext) ∧
      Opens k v.nodes (namesOf .value [(v.name.name, v.id)]) s.toContext s'.toContext := by
  simp only [stmt, runs_bind, runs_within, runs_lift] at hr
  obtain ⟨_, s1, hv, c, hvoid, rfl⟩ := hr
  obtain ⟨y, hset⟩ := runs_typeVoid hvoid
  have hgrows : Grows (fun _ => True) s1.toContext c :=
    (Check.within_setShape trivial).of_runs (Check.runs_setShape.mpr hset)
  have hlast : Opens k [] noNames s1.toContext c := .of_same (Collect.same_setShape hset)
  rcases runs_variableDecl hv with ⟨htaken, -⟩ | ⟨-, -, s2, htype, hrest⟩
  · -- what has been begun has a slot
    obtain ⟨x, hx⟩ := h.footing.taken v.id htaken
    exact absurd ((ha.fresh v.id List.mem_cons_self).1.symm.trans hx) (by simp)
  · have huses := names_variableType h.sight ha htype
    have hquiet : Resolving.Along (Quiet G.plan) (s.begun v) s2 :=
      (within_variableType G.plan (quiet_demand G.plan) v).of_runs htype
    have hsame : SameScopes s.toContext s2.toContext := hquiet h.stands.outside
    have hkind : s2.currentKind? = some .body := by
      obtain ⟨k', n, hat, -⟩ := h.scope
      rw [hsame.currentKind?]
      exact Collect.currentKind?_of_scopeAt h.current hat
    rcases hrest with ⟨hne, -⟩ | ⟨-, c1, hdecl, rfl⟩
    · exact absurd hkind hne
    · have hcurrent : s2.current? = some k := by
        rw [current?, hsame.stack]
        exact h.current
      have hdeclare : Grows (fun _ => True) s2.toContext c1 :=
        (Check.within_declare _ _ _ _).of_runs hdecl
      refine ⟨fun u hu => ((huses u hu).mono hdeclare.nodeType).mono hgrows.nodeType, ?_⟩
      have ho : Opens k [] noNames s.toContext s2.toContext := .of_same hsame
      exact ((ho.trans (opens_declare hcurrent hdecl)).trans hlast).mono (by simp) fun kind => by
        simp [noNames]

mutual

/-- **Identifiers in a statement** have the slots of what they stand for, and the names that the
statement declares are visible after it. -/
lemma names_stmt : ∀ {st : Stmt} {s s' : Resolving} {here : List (String × NodeId)} {env : Names}
    {k : ScopeId}, G.InBlock here env k s → G.Ahead st.nodes s →
    Runs (stmt .reopen G.plan st) s () s' →
      (∀ u ∈ st.uses (here :: env), u.Denotes G.program s'.toContext) ∧
        Opens k st.nodes (namesOf .value st.declared) s.toContext s'.toContext
  | .expression node value, s, s', here, env, k, h, ha, hr => by
    simp only [stmt, runs_bind, runs_lift] at hr
    obtain ⟨x, s1, he, c, hvoid, rfl⟩ := hr
    obtain ⟨huses, hkeeps⟩ := names_typeVoid (names_expr (b := false) h.sight ha.tail he)
      (.of_same (same_expr h.sight he)) hvoid
    exact ⟨huses, h.opens hkeeps⟩
  | .var v, s, s', here, env, k, h, ha, hr => names_variableStmt h ha hr
  | .ret node value, s, s', here, env, k, h, ha, hr => by
    simp only [stmt, runs_bind, runs_lift] at hr
    obtain ⟨_, s1, hret, c, hvoid, rfl⟩ := hr
    obtain ⟨huses, hkeeps⟩ := names_returnRule h.sight ha.tail hret
    obtain ⟨huses, hkeeps⟩ := names_typeVoid huses hkeeps hvoid
    exact ⟨huses, h.opens (hkeeps.mono fun _ hm => List.mem_cons_of_mem _ hm)⟩
  | .branch node test yes no, s, s', here, env, k, h, ha, hr => by
    have hfirst : ∀ {s1 s2 : Resolving}, Runs (condition G.plan test) s () s1 →
        Runs (block .reopen G.plan yes) s1 () s2 → G.Ahead (test.nodes ++ yes.nodes) s →
          (∀ u ∈ test.uses (here :: env) false ++ yes.uses (here :: env),
            u.Denotes G.program s2.toContext) ∧ G.Sight (here :: env) s2 ∧
              Advances G.groundwork (test.nodes ++ yes.nodes) s s2 ∧
                KeepsScopes (test.nodes ++ yes.nodes) s.toContext s2.toContext := by
      intro s1 s2 htest hyes ha
      obtain ⟨hu1, h1, hs1, hsame⟩ := names_condition h.sight ha.left htest
      obtain ⟨hu2, h2, hkeeps⟩ := names_block hs1 (ha.right h1) hyes
      have hkeeps1 : KeepsScopes test.nodes s.toContext s1.toContext := .of_same hsame
      refine ⟨List.forall_mem_append.mpr ⟨fun u hu => (hu1 u hu).mono h2.nodeType, hu2⟩, ?_,
        h1.trans h2, hkeeps1.trans hkeeps⟩
      exact hs1.keeps hkeeps h2.footing (ha.right h1).apart
    cases no with
    | none =>
      simp only [Stmt.nodes, List.append_nil] at ha ⊢
      simp only [stmt, runs_bind, runs_lift] at hr
      obtain ⟨_, s1, htest, _, s2, hyes, c, hvoid, rfl⟩ := hr
      obtain ⟨hu, -, -, hkeeps⟩ := hfirst htest hyes ha.tail
      obtain ⟨hu, hkeeps⟩ := names_typeVoid hu hkeeps hvoid
      refine ⟨?_, h.opens (hkeeps.mono fun _ hm => List.mem_cons_of_mem _ hm)⟩
      simpa [Stmt.uses] using hu
    | some other =>
      simp only [Stmt.nodes] at ha ⊢
      rw [← List.append_assoc] at ha
      simp only [stmt, runs_bind, runs_lift] at hr
      obtain ⟨_, s1, htest, _, s2, hyes, _, s3, hno, c, hvoid, rfl⟩ := hr
      obtain ⟨hu, hs2, h2, hkeeps⟩ := hfirst htest hyes ha.tail.left
      obtain ⟨hu', h3, hkeeps'⟩ := names_block hs2 (ha.tail.right h2) hno
      obtain ⟨hu, hkeeps⟩ := names_typeVoid
        (List.forall_mem_append.mpr ⟨fun u hm => (hu u hm).mono h3.nodeType, hu'⟩)
        (hkeeps.trans hkeeps') hvoid
      rw [List.append_assoc] at hu hkeeps
      exact ⟨hu, h.opens (hkeeps.mono fun _ hm => List.mem_cons_of_mem _ hm)⟩
  | .loop node test body, s, s', here, env, k, h, ha, hr => by
    simp only [stmt, runs_bind, runs_lift] at hr
    obtain ⟨_, s1, htest, _, s2, hbody, c, hvoid, rfl⟩ := hr
    obtain ⟨hu1, h1, hs1, hsame⟩ := names_condition h.sight ha.tail.left htest
    obtain ⟨hu2, h2, hkeeps⟩ := names_block hs1 (ha.tail.right h1) hbody
    have hkeeps1 : KeepsScopes test.nodes s.toContext s1.toContext := .of_same hsame
    obtain ⟨hu, hkeeps⟩ := names_typeVoid
      (List.forall_mem_append.mpr ⟨fun u hm => (hu1 u hm).mono h2.nodeType, hu2⟩)
      (hkeeps1.trans hkeeps) hvoid
    exact ⟨hu, h.opens (hkeeps.mono fun _ hm => List.mem_cons_of_mem _ hm)⟩
  | .block b, s, s', here, env, k, h, ha, hr => by
    simp only [stmt, runs_bind, runs_lift] at hr
    obtain ⟨_, s1, hb, c, hvoid, rfl⟩ := hr
    obtain ⟨hu, -, hkeeps⟩ := names_block h.sight ha hb
    obtain ⟨hu, hkeeps⟩ := names_typeVoid hu hkeeps hvoid
    exact ⟨hu, h.opens hkeeps⟩

lemma names_stmts : ∀ {ss : List Stmt} {s s' : Resolving} {here : List (String × NodeId)}
    {env : Names} {k : ScopeId}, G.InBlock here env k s → G.Ahead (Stmt.nodesAll ss) s →
    Runs (stmts .reopen G.plan ss) s () s' →
      (∀ u ∈ Stmt.usesAll here env ss, u.Denotes G.program s'.toContext) ∧
        ∃ es, Opens k (Stmt.nodesAll ss) (namesOf .value es) s.toContext s'.toContext
  | [], s, s', here, env, k, h, _, hr => by
    simp only [stmts, runs_pure] at hr
    obtain ⟨-, rfl⟩ := hr
    exact ⟨by simp [Stmt.usesAll], [], h.opens (.of_same (Std.Refl.refl _))⟩
  | st :: rest, s, s', here, env, k, h, ha, hr => by
    simp only [stmts, runs_bind] at hr
    obtain ⟨_, s1, hst, hrest⟩ := hr
    obtain ⟨hu, ho⟩ := names_stmt h ha.left hst
    have h1 := advances_stmt G.covers st (ha.left.ahead h.footing) hst
    have hs1 := h.next ho h1.footing ha.left.apart
    obtain ⟨hu', es, ho'⟩ := names_stmts hs1 (ha.right h1) hrest
    obtain ⟨h2, -⟩ :=
      (follows_stmts (Rules.conforms G.covers) ((ha.right h1).ahead h1.footing)).value _ _ hrest
    refine ⟨List.forall_mem_append.mpr ⟨fun u hm => (hu u hm).mono h2.nodeType, hu'⟩,
      st.declared ++ es, (ho.trans ho').mono (fun _ h => h) fun kind => ?_⟩
    by_cases hkind : kind = .value <;> simp [namesOf, hkind]

/-- A block leaves the scopes around it as they are. -/
lemma names_block : ∀ {b : Block} {s s' : Resolving} {env : Names}, G.Sight env s →
    G.Ahead b.nodes s → Runs (block .reopen G.plan b) s () s' →
      (∀ u ∈ b.uses env, u.Denotes G.program s'.toContext) ∧
        Advances G.groundwork b.nodes s s' ∧ KeepsScopes b.nodes s.toContext s'.toContext
  | ⟨node, statements⟩, s, s', env, h, ha, hr => by
    obtain ⟨hadv, -⟩ := advances_block G.covers (ha.ahead h.footing) hr
    simp only [block, runs_bind, runs_lift] at hr
    obtain ⟨_, s1, hscope, c, hvoid, rfl⟩ := hr
    obtain ⟨c1, s2, henter, hbody, rfl⟩ := runs_inScope hscope
    have ha : G.Ahead ([node.id] ++ Stmt.nodesAll statements) s := ha
    obtain ⟨rfl, hs1, h1⟩ := h.enter ha.left henter
    obtain ⟨hu, es, ho⟩ := names_stmts hs1 (ha.right h1) hbody
    have hu : ∀ u ∈ Stmt.usesAll [] env statements, u.Denotes G.program s2.closeScope :=
      fun u hm => (hu u hm).mono fun _ _ hx => hx
    obtain ⟨hu, hkeeps⟩ := names_typeVoid hu ho.closed hvoid
    exact ⟨hu, hadv, hkeeps⟩

end

end Resolve

/-! ### Declarations -/

namespace Setting

open Resolving

variable {G : Setting} {s s' : Resolving} {ns : List NodeId} {env : Names} {k id : ScopeId}
  {d : Decl}

lemma mem_ids (hd : d ∈ G.program.allDecls) :
    d.node.id ∈ G.program.id :: G.program.allDecls.map (·.node.id) :=
  List.mem_cons_of_mem _ (List.mem_map_of_mem (f := fun d : Decl => d.node.id) hd)

/-- A state of the walk between the declarations in the scope `k`, with no function around it. -/
structure Between (G : Setting) (env : Names) (k : ScopeId) (s : Resolving) : Prop where
  stands : G.Stands s.toContext
  footing : Footing G.groundwork s
  current : s.current? = some k
  outdoors : ∀ id ∈ s.stack, ∃ kind parent n, G.start.ScopeAt id kind parent n ∧
    kind ≠ .function ∧ kind ≠ .body
  views : Views G.program s.toContext k env

namespace Between

lemma keeps (h : G.Between env k s) (hk : KeepsScopes ns s.toContext s'.toContext)
    (hf : Footing G.groundwork s')
    (hns : ∀ n ∈ G.program.id :: G.program.allDecls.map (·.node.id), n ∉ ns) :
    G.Between env k s' := by
  have hstands := h.stands.keeps hk hns
  refine ⟨hstands, hf, ?_, by rw [hk.stack]; exact h.outdoors, ?_⟩
  · rw [current?, hk.stack]
    exact h.current
  · refine h.views.congr (fun id hid => hk.view id (hid.trans_lt h.views.lt)) fun o ho => ?_
    exact (hstands.object ho).trans (h.stands.object ho).symm

lemma isInside (h : G.Between env k s) : s.isInside .function = false := by
  rw [Bool.eq_false_iff]
  intro hin
  obtain ⟨id, hid, hkind⟩ : ∃ id ∈ s.stack, s.scopeKind? id = some .function := by
    simpa [Context.isInside, enclosing?, List.find?_isSome] using hin
  obtain ⟨kind, parent, n, hat, hne, -⟩ := h.outdoors id hid
  rw [(h.stands.scopeAt hat).scopeKind?] at hkind
  exact hne (Option.some.inj hkind)

lemma currentKind? (h : G.Between env k s) : s.currentKind? ≠ some .body := by
  obtain ⟨kind, parent, n, hat, -, hne⟩ := h.outdoors k (List.mem_of_mem_head? h.current)
  rw [Collect.currentKind?_of_scopeAt h.current (h.stands.scopeAt hat)]
  exact fun heq => hne (Option.some.inj heq)

/-- The scope of a declaration is opened again. -/
lemma reopen (h : G.Between env k s) (hd : d ∈ G.program.allDecls) {kind : ScopeKind}
    {es : SymbolKind → List (String × NodeId)} (hkind : kind ≠ .body)
    (hhome : G.start.Homed 1 k kind d.node.id es id) {l : Location} {c : Context}
    (hr : Runs (ScopeMode.reopen.enter kind d.node.id l) s.toContext () c) :
    c = { s.toContext with stack := id :: s.stack } ∧ s.Homed 1 k kind d.node.id es id ∧
      k < id := by
  have hhome' : s.Homed 1 k kind d.node.id es id :=
    hhome.congr (h.stands.view id hhome.scope.lt) (h.stands.scopeOf _ (mem_ids hd))
  obtain ⟨id', hid, rfl⟩ := runs_reopen hkind h.isInside hr
  obtain rfl := Option.some.inj (hhome'.scopeOf.symm.trans hid)
  refine ⟨rfl, hhome', ?_⟩
  obtain ⟨_, hview, -, hparent, -⟩ := hhome.scope
  obtain ⟨sc, hsc, rfl⟩ := Option.map_eq_some_iff.mp hview
  exact G.tidy.nested id sc k hsc hparent

end Between

/-- The nodes of the bodies of declarations, when the first of these has been visited. -/
lemma Ahead.rest {ds : List Decl} (h : G.Ahead ((Decl.allOf (d :: ds)).flatMap Decl.body) s)
    (hd : ∀ o ∈ d.all, o ∈ G.program.allDecls)
    (ha : Advances G.groundwork (d.all.flatMap Decl.visited) s s') :
    G.Ahead ((Decl.allOf ds).flatMap Decl.body) s' := by
  rw [Decl.allOf, List.flatMap_append] at h
  have hrest := h.sublist (List.sublist_append_right _ _)
  refine { hrest with fresh := hrest.fresh.advances ha fun n hn hn' => ?_ }
  obtain ⟨o, ho, hn⟩ := List.mem_flatMap.mp hn
  rcases List.mem_cons.mp hn with rfl | hn
  · exact hrest.apart _ (mem_ids (hd o ho)) hn'
  · exact (List.nodup_append'.mp h.nodup).2.2 (List.mem_flatMap.mpr ⟨o, ho, hn⟩) hn'

/-- Declarations have slots from the beginning. -/
lemma typed (hs : Footing G.groundwork s) (hd : d ∈ G.program.allDecls) :
    ∃ x, s.nodeType? d.node.id = some x := by
  have hkey := G.key hd d.node_mem_signature
  obtain ⟨x, hx, -⟩ := G.groundwork.typed _ hkey
  exact ⟨x, (hs.nodes _ hkey).trans hx⟩

end Setting

namespace Resolve

open Resolving Setting

variable {G : Setting} {s s' : Resolving} {env : Names} {k : ScopeId}

lemma advances_in_decl {d : Decl} (hs : Footing G.groundwork s)
    (hd : ∀ o ∈ d.all, o ∈ G.program.allDecls) (ha : G.Ahead (d.all.flatMap Decl.body) s)
    (hr : Runs (decl .reopen G.plan d) s () s') :
    Advances G.groundwork (d.all.flatMap Decl.visited) s s' :=
  (walked_decl G.covers ⟨hs, fun _ hv => Program.mem_variables.mpr (hd _ hv),
    fun o ho => typed hs (hd o ho), ha.nodup, ha.fresh⟩ hr).advances

lemma advances_in_decls {ds : List Decl} (hs : Footing G.groundwork s)
    (hd : ∀ o ∈ Decl.allOf ds, o ∈ G.program.allDecls)
    (ha : G.Ahead ((Decl.allOf ds).flatMap Decl.body) s)
    (hr : Runs (decls .reopen G.plan ds) s () s') :
    Advances G.groundwork ((Decl.allOf ds).flatMap Decl.visited) s s' :=
  (walked_decls G.covers ⟨hs, fun _ hv => Program.mem_variables.mpr (hd _ hv),
    fun o ho => typed hs (hd o ho), ha.nodup, ha.fresh⟩ hr).advances

lemma names_function {f : FunctionDecl} (h : G.Between env k s)
    (hd : .function f ∈ G.program.allDecls) (ha : G.Ahead f.body.nodes s)
    (hscoped : (Decl.function f).Scoped G.start.toContext 1 k)
    (hr : Runs (function .reopen G.plan f) s () s') :
    (∀ u ∈ f.body.uses (Parameter.fields f.parameters :: env), u.Denotes G.program s'.toContext) ∧
      KeepsScopes f.body.nodes s.toContext s'.toContext := by
  obtain ⟨id, hhome⟩ := hscoped
  obtain ⟨c1, s2, henter, hbody, rfl⟩ := runs_inScope hr
  obtain ⟨rfl, hhome, hlt⟩ := h.reopen hd (by simp) hhome henter
  simp only [runs_bind, runs_get, runs_lift] at hbody
  obtain ⟨_, _, ⟨rfl, rfl⟩, _, s3, hblock, c, hreturns, rfl⟩ := hbody
  obtain rfl := runs_checkReturns hreturns
  have hsight : G.Sight (Parameter.fields f.parameters :: env)
      { s with stack := id :: s.stack } := by
    refine ⟨⟨h.stands.size_le, h.stands.view, h.stands.scopeOf⟩,
      footing_of_stack h.footing, id, rfl,
      .scope hhome.scope (by simp) (fun name => hhome.names name .value) hlt ?_⟩
    exact h.views.congr (fun _ _ => rfl) fun _ _ => rfl
  obtain ⟨hu, -, hkeeps⟩ := names_block hsight ⟨ha.nodup, ha.fresh, ha.apart⟩ hblock
  exact ⟨fun u hm => (hu u hm).mono fun _ _ hx => hx, hkeeps.reopened⟩

mutual

/-- **Identifiers in a declaration** have the slots of what they stand for. -/
lemma names_decl : ∀ {d : Decl} {s s' : Resolving} {env : Names} {k : ScopeId},
    G.Between env k s → (∀ o ∈ d.all, o ∈ G.program.allDecls) →
    G.Ahead (d.all.flatMap Decl.body) s → d.Scoped G.start.toContext 1 k →
    Runs (decl .reopen G.plan d) s () s' →
      (∀ u ∈ d.uses G.program env, u.Denotes G.program s'.toContext) ∧
        KeepsScopes (d.all.flatMap Decl.body) s.toContext s'.toContext
  | .object o, s, s', env, k, h, hd, ha, hscoped, hr => by
    simp only [decl, runs_within] at hr
    exact names_object h hd ha hscoped hr
  | .function f, s, s', env, k, h, hd, ha, hscoped, hr => by
    simp only [Decl.all, Decl.body, List.flatMap_singleton] at ha ⊢
    simp only [decl, runs_within] at hr
    exact names_function h (hd _ (List.mem_singleton_self _)) ha hscoped hr
  | .var v, s, s', env, k, h, _, _, _, hr => by
    simp only [decl, runs_within] at hr
    have hsame := quiet_variableDecl (quiet_demand G.plan) v h.stands.outside h.currentKind?
    rw [show (variableDecl G.plan (demand G.plan) v).outcome s = (.ok (), s') from hr] at hsame
    exact ⟨by simp [Decl.uses], .of_same hsame⟩
  | .enum _, s, s', env, k, h, _, _, _, hr | .foreign _, s, s', env, k, h, _, _, _, hr => by
    simp only [decl, runs_pure] at hr
    obtain ⟨-, rfl⟩ := hr
    exact ⟨by simp [Decl.uses], .of_same (Std.Refl.refl _)⟩

lemma names_object : ∀ {o : ClassDecl} {s s' : Resolving} {env : Names} {k : ScopeId},
    G.Between env k s → (∀ d ∈ (Decl.object o).all, d ∈ G.program.allDecls) →
    G.Ahead ((Decl.object o).all.flatMap Decl.body) s → o.Scoped G.start.toContext 1 k →
    Runs (object .reopen G.plan o) s () s' →
      (∀ u ∈ o.uses G.program env, u.Denotes G.program s'.toContext) ∧
        KeepsScopes ((Decl.object o).all.flatMap Decl.body) s.toContext s'.toContext
  | ⟨node, name, base, members⟩, s, s', env, k, h, hd, ha, ⟨id, hhome, hall⟩, hr => by
    obtain ⟨hmem, hmembers⟩ := List.forall_mem_cons.mp hd
    obtain ⟨c1, s2, henter, hbody, rfl⟩ := runs_inScope hr
    have hstart := hhome.scope
    obtain ⟨rfl, hhome, hlt⟩ := h.reopen hmem (by simp) hhome henter
    have hs1 : G.Between (G.program.classNames name.name ++ env) id
        { s with stack := id :: s.stack } := by
      refine ⟨⟨h.stands.size_le, h.stands.view, h.stands.scopeOf⟩, footing_of_stack h.footing, rfl,
        List.forall_mem_cons.mpr ⟨⟨_, _, _, hstart, by simp, by simp⟩, h.outdoors⟩,
        .object hmem hhome.scope hhome.scopeOf hlt ?_⟩
      exact h.views.congr (fun _ _ => rfl) fun _ _ => rfl
    obtain ⟨hu, hkeeps⟩ := names_decls hs1 hmembers ⟨ha.nodup, ha.fresh, ha.apart⟩ hall hbody
    exact ⟨fun u hm => (hu u hm).mono fun _ _ hx => hx, hkeeps.reopened⟩

lemma names_decls : ∀ {ds : List Decl} {s s' : Resolving} {env : Names} {k : ScopeId},
    G.Between env k s → (∀ o ∈ Decl.allOf ds, o ∈ G.program.allDecls) →
    G.Ahead ((Decl.allOf ds).flatMap Decl.body) s → Decl.ScopedAll G.start.toContext 1 k ds →
    Runs (decls .reopen G.plan ds) s () s' →
      (∀ u ∈ Decl.usesAll G.program env ds, u.Denotes G.program s'.toContext) ∧
        KeepsScopes ((Decl.allOf ds).flatMap Decl.body) s.toContext s'.toContext
  | [], s, s', env, k, h, _, _, _, hr => by
    simp only [decls, runs_pure] at hr
    obtain ⟨-, rfl⟩ := hr
    exact ⟨by simp [Decl.usesAll], .of_same (Std.Refl.refl _)⟩
  | d :: rest, s, s', env, k, h, hd, ha, ⟨hscoped, hall⟩, hr => by
    simp only [decls, runs_bind] at hr
    obtain ⟨_, s1, hfirst, hrest⟩ := hr
    obtain ⟨hd1, hd2⟩ := List.forall_mem_append.mp hd
    have ha1 : G.Ahead (d.all.flatMap Decl.body) s := by
      rw [Decl.allOf, List.flatMap_append] at ha
      exact ha.left
    have h1 := advances_in_decl h.footing hd1 ha1 hfirst
    have ha2 := ha.rest hd1 h1
    obtain ⟨hu, hkeeps⟩ := names_decl h hd1 ha1 hscoped hfirst
    obtain ⟨hu', hkeeps'⟩ := names_decls (h.keeps hkeeps h1.footing ha1.apart) hd2 ha2 hall hrest
    have h2 := advances_in_decls h1.footing hd2 ha2 hrest
    refine ⟨List.forall_mem_append.mpr ⟨fun u hm => (hu u hm).mono h2.nodeType, hu'⟩, ?_⟩
    rw [Decl.allOf, List.flatMap_append]
    exact hkeeps.trans hkeeps'

end

end Resolve

/-! ### Accepted programs -/

namespace Setting

/-- The walk begins between the declarations of the program. -/
lemma between (G : Setting) :
    G.Between [Decl.names G.program.declarations .value] rootScope G.start := by
  refine ⟨.start G, G.footing, ?_, ?_,
    .program G.starts.root fun name => G.starts.names name .value⟩
  · rw [current?, G.starts.stack]
    rfl
  · rw [G.starts.stack]
    exact List.forall_mem_singleton.mpr ⟨_, _, _, G.starts.root, by simp, by simp⟩

lemma ahead (G : Setting) : G.Ahead (G.program.allDecls.flatMap Decl.body) G.start := by
  obtain ⟨hnd, hfresh⟩ := G.starts.bodies G.numbered.toNumbered
  refine ⟨hnd, hfresh, fun n hn hm => ?_⟩
  obtain ⟨d, hd, hm⟩ := List.mem_flatMap.mp hm
  have hin : n ∈ d.inside := by
    cases d <;> first | exact absurd hm List.not_mem_nil | exact hm
  rcases List.mem_cons.mp hn with rfl | hn
  · refine G.numbered.root (List.mem_append_left _ (List.mem_append_right _ ?_))
    exact List.mem_flatMap.mpr ⟨d, hd, hin⟩
  · obtain ⟨o, ho, rfl⟩ := List.mem_map.mp hn
    exact G.numbered.inside_notMem hd hin ho o.node_mem_signature

end Setting

namespace Analysis

variable {p : Program} {a : Analysis}

/-- **Name resolution is lexical scoping.** If all classes and enums of an accepted program have
different names, every identifier in the body of a function has the slot of the declaration that
its name stands for there, and that of a class or an enum only if it stands for no value. -/
theorem names_are_lexical (hp : p.FullyNumbered) (hd : p.DistinctTypeNames)
    (h : Analysis.standard p = .ok a) : ∀ u ∈ a.program.uses, u.Denotes a.program a.context := by
  obtain ⟨c1, c2, hacc⟩ := accepts_of_standard h
  obtain ⟨g, hg⟩ := hacc.context
  obtain ⟨G, s', hprogram, -, hdecls, rfl⟩ := hacc.setting hp hd
  rw [← hprogram] at hdecls ⊢
  obtain ⟨hu, -⟩ := Resolve.names_decls G.between (fun _ ho => ho) G.ahead G.starts.homes hdecls
  intro u hm
  rw [hg]
  exact (hu u hm).mono fun _ _ hx => hx

/-- Names that are declared in several places: in the program, in a class and its base class, as a
parameter, and in blocks inside each other. -/
def manyNames : Program :=
  (StateT.run (m := Id) (do
    let x ← Draft.variableDecl "x" (some (← Draft.namedType "Int" [])) none
    let y ← Draft.variableDecl "y" (some (← Draft.namedType "Int" [])) none
    let base ← Draft.classDecl "Base" none [.var x, .var y]
    let y ← Draft.variableDecl "y" (some (← Draft.namedType "String" [])) none
    let p ← Draft.parameter "p" (← Draft.namedType "Int" [])
    let local1 ← Draft.variableStmt "p" none (some (← Draft.identifier "p"))
    let local2 ← Draft.variableStmt "x" none (some (← Draft.identifier "x"))
    let inner ← Draft.blockStmt [local2, ← Draft.expressionStmt (← Draft.identifier "x")]
    let after ← Draft.expressionStmt
      (← Draft.record [("x", ← Draft.identifier "x"), ("y", ← Draft.identifier "y")])
    let made ← Draft.expressionStmt (← Draft.call (← Draft.identifier "Child") [])
    let item ← Draft.expressionStmt (← Draft.member (← Draft.identifier "Color") "red")
    let m ← Draft.functionDecl "m" [p] none [local1, inner, after, made, item]
    let child ← Draft.classDecl "Child" (some (← Draft.namedType "Base" [])) [.var y, .function m]
    let color ← Draft.enumDecl "Color" [← Draft.enumItem "red" []]
    let x ← Draft.variableDecl "x" (some (← Draft.namedType "String" [])) none
    let top ← Draft.expressionStmt (← Draft.identifier "x")
    Draft.program [.object child, .object base, .enum color, .var x] [top]) {}).1

theorem names_are_lexical_manyNames : ∃ a, Analysis.standard manyNames = .ok a ∧
    manyNames.FullyNumbered ∧ manyNames.DistinctTypeNames ∧
    a.program.uses.map Use.distance = [("p", some 1), ("x", some 4), ("x", some 0), ("x", some 3),
      ("y", some 2), ("Child", none), ("Color", none), ("x", some 2)] ∧
    ∀ u ∈ a.program.uses, u.Denotes a.program a.context := by
  have hp : manyNames.FullyNumbered :=
    ⟨⟨by decide +kernel, by decide +kernel⟩, by decide +kernel, by decide +kernel⟩
  have hd : (manyNames.allDecls.filterMap Decl.typeName?).Nodup := by decide +kernel
  obtain ⟨a, ha, huses⟩ := exists_of_map_eq (p := manyNames)
    (f := fun a => a.program.uses.map Use.distance)
    (y := [("p", some 1), ("x", some 4), ("x", some 0), ("x", some 3), ("y", some 2),
      ("Child", none), ("Color", none), ("x", some 2)]) (by decide +kernel)
  exact ⟨a, ha, hp, hd, huses, names_are_lexical hp hd ha⟩

end Analysis

end Sema
