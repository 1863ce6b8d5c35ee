import Mathlib.Data.List.Pairwise
import Sema.Proofs.Collected
import Sema.Proofs.Footprint

/-!
How the second walk begins. The plan has all variables of the program and of its classes, each with
its slot and the class that it belongs to. When the signatures have been resolved, every node of a
signature has a slot, and no node of a body or of an initial value has one.
-/

namespace Sema

open Sema.Action

variable {p : Program} {v : VariableDecl}

/-! ### Variables of a program -/

def Decl.variable? : Decl → Option VariableDecl
  | .var v => some v
  | .object _ | .function _ | .enum _ | .foreign _ => none

/-- The variables of the program and of its classes. -/
def Program.variables (p : Program) : List VariableDecl :=
  p.allDecls.filterMap Decl.variable?

def Decl.class? : Decl → Option ClassDecl
  | .object o => some o
  | .var _ | .function _ | .enum _ | .foreign _ => none

/-- The nodes in whose scopes variables are declared. -/
def Program.owners (p : Program) : List NodeId :=
  p.id :: (p.allDecls.filterMap Decl.class?).map (·.id)

lemma Program.mem_owners {n : NodeId} :
    n ∈ p.owners ↔ n = p.id ∨ ∃ o, .object o ∈ p.allDecls ∧ n = o.id := by
  refine List.mem_cons.trans (or_congr_right ?_)
  simp only [List.mem_map, List.mem_filterMap]
  constructor
  · rintro ⟨o, ⟨d, hd, ho⟩, rfl⟩
    cases d <;> cases ho
    exact ⟨_, hd, rfl⟩
  · rintro ⟨o, ho, rfl⟩
    exact ⟨o, ⟨_, ho, rfl⟩, rfl⟩

lemma Decl.eq_var_of_variable? {d : Decl} (h : d.variable? = some v) : d = .var v := by
  cases d <;> cases h
  rfl

lemma Program.mem_variables : v ∈ p.variables ↔ .var v ∈ p.allDecls := by
  refine List.mem_filterMap.trans ⟨?_, fun h => ⟨_, h, rfl⟩⟩
  rintro ⟨d, hd, hv⟩
  rwa [← Decl.eq_var_of_variable? hv]

lemma variables_sublist : ∀ ds : List Decl,
    ((ds.filterMap Decl.variable?).map (·.id)).Sublist (ds.flatMap Decl.signature)
  | [] => List.Sublist.refl _
  | .var v :: rest => by
    have h : ((Decl.var v :: rest).filterMap Decl.variable?).map (·.id) =
      v.id :: (rest.filterMap Decl.variable?).map (·.id) := rfl
    rw [h, List.flatMap_cons]
    exact ((variables_sublist rest).trans (List.sublist_append_right _ _)).cons_cons _
  | .object _ :: rest | .function _ :: rest | .enum _ :: rest | .foreign _ :: rest =>
    (variables_sublist rest).trans (List.sublist_append_right _ _)

namespace Program.Numbered

variable {p : Program} {v w : VariableDecl} {d : Decl} {n : NodeId} {d' : Decl}

lemma signatures (h : p.Numbered) : (p.allDecls.flatMap Decl.signature).Nodup :=
  (List.nodup_append'.mp (List.nodup_append'.mp h.nodup).1).1

lemma layout_nodup (h : p.Numbered) : (p.layout.map Prod.fst).Nodup := by
  rw [p.layout_fst]
  exact h.signatures

lemma insides (h : p.Numbered) : (p.allDecls.flatMap Decl.inside).Nodup :=
  (List.nodup_append'.mp (List.nodup_append'.mp h.nodup).1).2.1

/-- No node is both in a signature and inside a declaration. -/
lemma inside_notMem (h : p.Numbered) (hd : d ∈ p.allDecls) (hn : n ∈ d.inside)
    (hd' : d' ∈ p.allDecls) : n ∉ d'.signature := by
  obtain ⟨-, -, hdisjoint⟩ := List.nodup_append'.mp (List.nodup_append'.mp h.nodup).1
  exact fun hn' => hdisjoint (List.mem_flatMap.mpr ⟨d', hd', hn'⟩)
    (List.mem_flatMap.mpr ⟨d, hd, hn⟩)

lemma variable_nodup (h : p.Numbered) (hv : v ∈ p.variables) : v.nodes.Nodup := by
  have hv := Program.mem_variables.mp hv
  have h1 := List.nodup_flatMap.mp h.signatures |>.1 _ hv
  have h2 := List.nodup_flatMap.mp h.insides |>.1 _ hv
  have hd : List.Disjoint (Decl.var v).signature (Decl.var v).inside :=
    fun n hn hn' => h.inside_notMem hv hn' hv hn
  exact List.nodup_append'.mpr ⟨h1, h2, hd⟩

lemma insides_apart (h : p.Numbered) (hd : d ∈ p.allDecls) (hd' : d' ∈ p.allDecls)
    (hne : d ≠ d') : List.Disjoint d.inside d'.inside := by
  have hsymm : Std.Symm (Function.onFun List.Disjoint Decl.inside) := ⟨fun _ _ h _ hx hy => h hy hx⟩
  exact (List.nodup_flatMap.mp h.insides).2.forall hd hd' hne

lemma signatures_apart (h : p.Numbered) (hd : d ∈ p.allDecls) (hd' : d' ∈ p.allDecls)
    (hne : d ≠ d') : List.Disjoint d.signature d'.signature := by
  have hsymm : Std.Symm (Function.onFun List.Disjoint Decl.signature) :=
    ⟨fun _ _ h _ hx hy => h hy hx⟩
  exact (List.nodup_flatMap.mp h.signatures).2.forall hd hd' hne

lemma variables_apart (h : p.Numbered) (hv : v ∈ p.variables) (hw : w ∈ p.variables)
    (hne : v.id ≠ w.id) : List.Disjoint (Expr.nodes? v.value) (Expr.nodes? w.value) := by
  refine h.insides_apart (Program.mem_variables.mp hv) (Program.mem_variables.mp hw) ?_
  rintro ⟨⟩
  exact hne rfl

end Program.Numbered

/-! ### The plan -/

namespace Plan

variable {plan plan' : Plan} {c c' : Context} {owners : List NodeId} {vs : List VariableDecl}
  {v : VariableDecl} {owner : NodeId} {x : Slot}

/-- The plan has the variables `vs`, which belong to nodes in `owners`. -/
structure Serves (plan : Plan) (c : Context) (owners : List NodeId) (vs : List VariableDecl) :
    Prop where
  pending : ∀ n q, plan.pending.get? n = some q → q.decl ∈ vs ∧ q.decl.id = n ∧ q.owner ∈ owners
  planned : ∀ v ∈ vs, ∃ q, plan.pending.get? v.id = some q ∧ q.decl = v
  slots : ∀ v ∈ vs, ∀ x, c.nodeType? v.id = some x → plan.ownerOfSlot.get? x = some v.id
  size : plan.size = vs.length

lemma Serves.add (h : plan.Serves c owners vs) (howner : owner ∈ owners)
    (hx : c.nodeType? v.id = some x) (hne : ∀ w ∈ vs, w.id ≠ v.id)
    (hslot : ∀ w ∈ vs, c.nodeType? w.id ≠ some x) :
    (plan.add v owner x).Serves c owners (vs ++ [v]) := by
  refine ⟨fun n q hq => ?_, fun w hw => ?_, fun w hw y hy => ?_, ?_⟩
  · simp only [Plan.add, Table.get?_insert] at hq
    split at hq
    · next heq =>
      cases hq
      exact ⟨by simp, heq.symm, howner⟩
    · obtain ⟨h1, h2, h3⟩ := h.pending n q hq
      exact ⟨List.mem_append_left _ h1, h2, h3⟩
  · simp only [Plan.add, Table.get?_insert]
    rcases List.mem_append.mp hw with hw | hw
    · rw [if_neg (hne w hw)]
      exact h.planned w hw
    · rw [List.mem_singleton.mp hw, if_pos rfl]
      exact ⟨_, rfl, rfl⟩
  · simp only [Plan.add, Table.get?_insert]
    rcases List.mem_append.mp hw with hw | hw
    · rw [if_neg]
      · exact h.slots w hw y hy
      · rintro rfl
        exact hslot w hw hy
    · rw [List.mem_singleton.mp hw] at hy ⊢
      rw [if_pos (Option.some.inj (hy.symm.trans hx))]
  · have := h.size
    simp only [Plan.size, Plan.add, Table.insert, List.length_cons, List.length_append,
      List.length_nil] at this ⊢
    omega

/-- The variables can be told apart, by their nodes and by their slots. -/
structure Apart (c : Context) (vs : List VariableDecl) : Prop where
  nodup : (vs.map (·.id)).Nodup
  typed : ∀ v ∈ vs, ∃ x, c.nodeType? v.id = some x
  slots : ∀ v ∈ vs, ∀ w ∈ vs, ∀ x, c.nodeType? v.id = some x → c.nodeType? w.id = some x →
    v.id = w.id

lemma Apart.left {ws : List VariableDecl} (h : Apart c (vs ++ ws)) : Apart c vs := by
  have hsub : ∀ v ∈ vs, v ∈ vs ++ ws := fun v hv => List.mem_append_left _ hv
  refine ⟨?_, fun v hv => h.typed v (hsub v hv),
    fun v hv w hw => h.slots v (hsub v hv) w (hsub w hw)⟩
  have := h.nodup
  rw [List.map_append] at this
  exact (List.nodup_append'.mp this).1

mutual

lemma serves_addDecl : ∀ {d : Decl} {plan plan' : Plan} {c c' : Context} {vs : List VariableDecl}
    {owner : NodeId}, plan.Serves c owners vs → owner ∈ owners →
      (∀ o, .object o ∈ d.all → o.id ∈ owners) → Apart c (vs ++ d.all.filterMap Decl.variable?) →
      Runs (addDecl plan owner d) c plan' c' →
        c' = c ∧ plan'.Serves c owners (vs ++ d.all.filterMap Decl.variable?)
  | .var v, plan, plan', c, c', vs, owner, h, howner, _, ha, hr => by
    simp only [addDecl, runs_bind, Check.runs_slotOf, runs_pure] at hr
    obtain ⟨x, _, hslot, rfl, rfl⟩ := hr
    have hvars : (Decl.var v).all.filterMap Decl.variable? = [v] := rfl
    rw [hvars] at ha ⊢
    obtain ⟨y, hy⟩ := ha.typed v (by simp)
    rw [Context.slotOf_of_some hy] at hslot
    cases hslot
    have hne : ∀ w ∈ vs, w.id ≠ v.id := by
      have := ha.nodup
      rw [List.map_append] at this
      obtain ⟨-, -, hdisjoint⟩ := List.nodup_append'.mp this
      intro w hw heq
      exact hdisjoint (List.mem_map_of_mem (f := (·.id)) hw) (by simp [heq])
    refine ⟨rfl, h.add howner hy hne fun w hw hwx => ?_⟩
    exact hne w hw (ha.slots w (by simp [hw]) v (by simp) _ hwx hy)
  | .object o, plan, plan', c, c', vs, owner, h, howner, hall, ha, hr => by
    have hvars : (Decl.object o).all.filterMap Decl.variable? = o.all.filterMap Decl.variable? :=
      rfl
    rw [hvars] at ha ⊢
    exact serves_addClass h (hall o List.mem_cons_self)
      (fun o' ho' => hall o' (List.mem_cons_of_mem _ ho')) ha hr
  | .function _, plan, plan', c, c', vs, owner, h, _, _, _, hr
  | .enum _, plan, plan', c, c', vs, owner, h, _, _, _, hr
  | .foreign _, plan, plan', c, c', vs, owner, h, _, _, _, hr => by
    simp only [addDecl, runs_pure] at hr
    obtain ⟨rfl, rfl⟩ := hr
    exact ⟨rfl, (List.append_nil vs).symm ▸ h⟩

lemma serves_addClass : ∀ {o : ClassDecl} {plan plan' : Plan} {c c' : Context}
    {vs : List VariableDecl}, plan.Serves c owners vs → o.id ∈ owners →
      (∀ o', .object o' ∈ o.all → o'.id ∈ owners) → Apart c (vs ++ o.all.filterMap Decl.variable?) →
      Runs (addClass plan o) c plan' c' →
        c' = c ∧ plan'.Serves c owners (vs ++ o.all.filterMap Decl.variable?)
  | ⟨_, _, _, _⟩, _, _, _, _, _, h, hown, hall, ha, hr => serves_addDecls h hown hall ha hr

lemma serves_addDecls : ∀ {ds : List Decl} {plan plan' : Plan} {c c' : Context}
    {vs : List VariableDecl} {owner : NodeId}, plan.Serves c owners vs → owner ∈ owners →
      (∀ o, .object o ∈ Decl.allOf ds → o.id ∈ owners) →
      Apart c (vs ++ (Decl.allOf ds).filterMap Decl.variable?) →
      Runs (addDecls plan owner ds) c plan' c' →
        c' = c ∧ plan'.Serves c owners (vs ++ (Decl.allOf ds).filterMap Decl.variable?)
  | [], plan, plan', c, c', vs, owner, h, _, _, _, hr => by
    simp only [addDecls, runs_pure] at hr
    obtain ⟨rfl, rfl⟩ := hr
    simpa [Decl.allOf] using h
  | d :: rest, plan, plan', c, c', vs, owner, h, howner, hall, ha, hr => by
    simp only [Decl.allOf, List.filterMap_append, ← List.append_assoc] at ha ⊢
    simp only [addDecls, runs_bind] at hr
    obtain ⟨plan1, c1, hd, hrest⟩ := hr
    obtain ⟨rfl, h1⟩ := serves_addDecl h howner
      (fun o ho => hall o (List.mem_append_left _ ho)) ha.left hd
    exact serves_addDecls h1 howner (fun o ho => hall o (List.mem_append_right _ ho)) ha hrest

end

end Plan

/-! ### The class hierarchy -/

namespace Resolve

open Context Resolving

variable {c : Context} {c1 c2 c3 c4 : Context} {ds : List Decl} {plan : Plan} {p : Program}
  {s : Resolving} {mode mode' : ScopeMode}

/-- A check passes when none of the classes is among its own base classes, and otherwise blames
one that is. Either way it changes nothing. -/
def Judges (x : Check Unit) (ds : List Decl) (c : Context) : Prop :=
  x.outcome c = (.ok (), c) ∧ (∀ o, .object o ∈ ds → ∀ y, c.nodeType? o.id = some y →
      c.types.inheritsFromItself y = false) ∨
    ∃ o y f, .object o ∈ ds ∧ c.nodeType? o.id = some y ∧ c.types.inheritsFromItself y = true ∧
      f.cause = .cyclicInheritance o.name.name ∧ x.outcome c = (.error f, c)

lemma Judges.pass {x : Check Unit} (hx : x.outcome c = (.ok (), c))
    (hds : ∀ o, .object o ∉ ds) : Judges x ds c :=
  .inl ⟨hx, fun o ho => absurd ho (hds o)⟩

lemma Judges.append {x y : Check Unit} {ds' : List Decl} (hx : Judges x ds c)
    (hy : Judges y ds' c) : Judges (do x; y) (ds ++ ds') c := by
  rcases hx with ⟨hx, hds⟩ | ⟨o, z, f, ho, hz, hin, hf, hx⟩
  · have hrun : (do x; y : Check Unit).outcome c = y.outcome c := by rw [outcome_bind, hx]
    rcases hy with ⟨hy, hds'⟩ | ⟨o, z, f, ho, hz, hin, hf, hy⟩
    · refine .inl ⟨hrun.trans hy, fun o ho => ?_⟩
      exact (List.mem_append.mp ho).elim (hds o) (hds' o)
    · exact .inr ⟨o, z, f, List.mem_append_right _ ho, hz, hin, hf, hrun.trans hy⟩
  · refine .inr ⟨o, z, f, List.mem_append_left _ ho, hz, hin, hf, ?_⟩
    rw [outcome_bind, hx]

lemma Judges.runs {x : Check Unit} {c' : Context} (h : Judges x ds c) (hr : Runs x c () c') :
    c' = c ∧ ∀ o, .object o ∈ ds → ∀ y, c.nodeType? o.id = some y →
      c.types.inheritsFromItself y = false := by
  rcases h with ⟨hx, hds⟩ | ⟨o, y, f, -, -, -, -, hx⟩
  · cases hr.symm.trans hx
    exact ⟨rfl, hds⟩
  · cases hr.symm.trans hx

mutual

lemma judges_hierarchy : ∀ {d : Decl},
    (∀ d' ∈ d.all, ∃ x, c.nodeType? d'.node.id = some x) → Judges (hierarchy d) d.all c
  | .object o, ht => by
    obtain ⟨hown, hmembers⟩ := List.forall_mem_cons.mp ht
    exact judges_classHierarchy hown hmembers
  | .function _, _ | .var _, _ | .enum _, _ | .foreign _, _ => .pass rfl (by simp [Decl.all])

lemma judges_classHierarchy : ∀ {d : ClassDecl}, (∃ x, c.nodeType? d.id = some x) →
    (∀ d' ∈ d.all, ∃ x, c.nodeType? d'.node.id = some x) →
      Judges (classHierarchy d) (.object d :: d.all) c
  | ⟨node, name, base, members⟩, ⟨x, hx⟩, hmembers => by
    have hslot : (Check.slotOf node.id).outcome c = (.ok x, c) :=
      Check.runs_slotOf.mpr (slotOf_of_some hx)
    rcases hin : c.types.inheritsFromItself x with _ | _
    · have hrun : (classHierarchy ⟨node, name, base, members⟩).outcome c =
          (hierarchies members).outcome c := by
        simp [classHierarchy, outcome_bind, hslot, Check.types, hin]
      rcases judges_hierarchies hmembers with ⟨hrest, hds⟩ | ⟨o, y, f, ho, hy, hrest⟩
      · refine .inl ⟨hrun.trans hrest, fun o ho y hy => ?_⟩
        rcases List.mem_cons.mp ho with heq | ho
        · cases heq
          obtain rfl : x = y := Option.some.inj (hx.symm.trans hy)
          exact hin
        · exact hds o ho y hy
      · obtain ⟨hyin, hf, hrest⟩ := hrest
        exact .inr ⟨o, y, f, List.mem_cons_of_mem _ ho, hy, hyin, hf, hrun.trans hrest⟩
    · refine .inr ⟨⟨node, name, base, members⟩, x,
        { cause := .cyclicInheritance name.name, location := node.location },
        List.mem_cons_self, hx, hin, rfl, ?_⟩
      simp [classHierarchy, outcome_bind, hslot, Check.types, hin]

/-- **The check of the hierarchy** looks at every class, at any depth. -/
lemma judges_hierarchies : ∀ {ds : List Decl},
    (∀ d' ∈ Decl.allOf ds, ∃ x, c.nodeType? d'.node.id = some x) →
      Judges (hierarchies ds) (Decl.allOf ds) c
  | [], _ => .pass rfl (by simp [Decl.allOf])
  | d :: rest, ht => by
    obtain ⟨h1, h2⟩ := List.forall_mem_append.mp ht
    exact (judges_hierarchy h1).append (judges_hierarchies h2)

end

/-! ### The beginning of the walk -/

/-- Where the walk over bodies and initial values begins. -/
structure Begins (p : Program) (plan : Plan) (s : Resolving) : Prop where
  orderly : s.Orderly p.layout
  typed : s.Typed (p.allDecls.flatMap Decl.signature)
  serves : plan.Serves s.toContext p.owners p.variables
  resolving : s.resolving = []
  resolved : s.resolved = []

lemma Begins.grounded (h : Begins p plan s) : s.Grounded := by
  have htyped : ∀ n ∈ p.layout.map Prod.fst, ∃ x, s.nodeType? n = some x := by
    rw [p.layout_fst]
    exact h.typed
  constructor
  · intro id sc hsc symbol hmem
    exact htyped _ (h.orderly.declared id sc hsc symbol hmem)
  · intro id sc hsc hk
    obtain ⟨name, hname⟩ := h.orderly.objects id sc hsc hk
    exact htyped _ (List.mem_map_of_mem (f := Prod.fst) hname)

/-- What is inside declarations has no types yet. -/
lemma Begins.untyped (h : Begins p plan s) (hp : p.Numbered) {d : Decl}
    (hd : d ∈ p.allDecls) : ∀ n ∈ d.inside, s.nodeType? n = none := by
  intro n hn
  rcases hx : s.nodeType? n with _ | x
  · rfl
  · have := (h.orderly.typed n x hx).1
    rw [p.layout_fst] at this
    obtain ⟨d', hd', hn'⟩ := List.mem_flatMap.mp this
    exact absurd hn' (hp.inside_notMem hd hn hd')

/-- Variables have numbers of their own. -/
lemma eq_of_variable_id (hp : p.Numbered) :
    ∀ v ∈ p.variables, ∀ w ∈ p.variables, w.id = v.id → w = v := by
  have hnd : (p.variables.map (·.id)).Nodup := hp.signatures.sublist (variables_sublist p.allDecls)
  intro v hv w hw hid
  exact List.inj_on_of_nodup_map hnd hw hv hid

lemma Begins.covers (h : Begins p plan s) (hp : p.Numbered) : plan.Covers p.variables :=
  ⟨fun n q hq => ⟨(h.serves.pending n q hq).1, (h.serves.pending n q hq).2.1⟩,
    fun _ hv => hp.variable_nodup hv, eq_of_variable_id hp,
    fun _ hv _ hw => hp.variables_apart hv hw⟩

/-- What the walk finds when it begins. -/
def Begins.groundwork {p : Program} {plan : Plan} {s : Resolving} (h : Begins p plan s)
    (hp : p.Numbered) (r : Prop) (hr : r → s.Named p.layout) : Groundwork where
  r := r
  layout := p.layout
  vars := p.variables
  start := s.toContext
  tags := fun v hv t ht => List.mem_flatMap.mpr ⟨_, Program.mem_variables.mp hv, ht⟩
  apart := fun v hv w hw hne => hp.signatures_apart (Program.mem_variables.mp hv)
    (Program.mem_variables.mp hw) fun h => hne (Decl.var.inj h)
  typed := fun n hn => by
    obtain ⟨x, hx⟩ := h.typed n (by rwa [← p.layout_fst])
    exact ⟨x, hx, (h.orderly.typed n x hx).2⟩
  arranged := h.orderly.toArranged
  named := hr

lemma Begins.footing (h : Begins p plan s) (hp : p.Numbered) (r : Prop)
    (hr : r → s.Named p.layout) : Footing (h.groundwork hp r hr) s := by
  refine ⟨h.grounded, le_rfl, fun _ _ => rfl, fun v hv _ => ?_, ?_, fun _ _ _ => .inl (.refl _), ?_,
    ?_⟩
  · exact h.untyped hp (Program.mem_variables.mp hv)
  · rintro symbol hk ⟨id, sc, hsc, hmem⟩
    exact h.orderly.symbols id sc hsc symbol hmem hk
  · simp [h.resolved, h.resolving]
  · rintro r ⟨x, ps, -, hget⟩
    refine (h.orderly.shapes x).handles r ?_
    rw [hget]
    exact List.mem_append_left _ List.mem_cons_self

/-- Making the plan of a program that has been collected leaves the context as it is. -/
lemma serves_of_plan (hp : p.Numbered) (hcollect : Runs (Collect.program mode p) {} () c1)
    (hplan : Runs (Plan.addDecls {} p.id p.declarations) c1 plan c) :
    c = c1 ∧ plan.Serves c1 p.owners p.variables ∧
      ∀ v ∈ p.variables, ∃ x, c1.nodeType? v.id = some x := by
  obtain ⟨-, h1, htyped1⟩ := Collect.orderly_program hp.signatures hcollect
  have hids : ∀ v ∈ p.variables, ∃ x, c1.nodeType? v.id = some x := fun v hv =>
    htyped1 _ (List.mem_flatMap.mpr ⟨_, Program.mem_variables.mp hv, List.mem_cons_self⟩)
  have hapart : Plan.Apart c1 ([] ++ p.allDecls.filterMap Decl.variable?) := by
    rw [List.nil_append]
    refine ⟨?_, hids, fun v hv w hw x hx hx' => ?_⟩
    · exact hp.signatures.sublist (variables_sublist _)
    · have htag : (w.id, Tag.variable) ∈ p.layout :=
        List.mem_flatMap.mpr ⟨_, Program.mem_variables.mp hw, List.mem_cons_self⟩
      exact h1.private_own (.inr htag) hx' (h1.typed _ x hx).1 hx
  have hempty : Plan.Serves {} c1 p.owners [] :=
    ⟨by simp [Table.get?], by simp, by simp, rfl⟩
  obtain ⟨heq, hserves⟩ := Plan.serves_addDecls hempty List.mem_cons_self
    (fun o ho => Program.mem_owners.mpr (.inr ⟨o, ho, rfl⟩)) hapart hplan
  exact ⟨heq, hserves, hids⟩

/-- The second walk up to the hierarchy. -/
lemma begins_of_signatures (hp : p.Numbered) (hcollect : Runs (Collect.program mode p) {} () c1)
    (hplan : Runs (Plan.addDecls {} p.id p.declarations) c1 plan c1)
    (henter : Runs (mode'.enter .program p.id p.location) c1 () c3)
    (hsig : Runs (signatures mode' p.declarations) c3 () c4) :
    Begins p plan { toContext := c4 } := by
  obtain ⟨hc1, h1, htyped1⟩ := Collect.orderly_program hp.signatures hcollect
  obtain ⟨-, hserves, hids⟩ := serves_of_plan hp hcollect hplan
  have h3 : Heeds True p.layout c1 c3 := ((ScopeMode.ensures_enter (E := fun _ => True) hc1
    (.inl trivial)).heeds fun _ h => h.enter (by simp)).of_value henter
  have hsigned : Ensures (Heeds True p.layout) (fun _ => True)
      (signatures mode' p.declarations) c3 _ :=
    ensures_signatures p.declarations h3.wellFormed (.inl fun _ => trivial) fun _ _ h => h
  have h4 := h3.trans (hsigned.of_value hsig)
  refine ⟨h4.orderly trivial h1, hsigned.value _ _ hsig (h3.typed htyped1),
    ⟨hserves.pending, hserves.planned, fun v hv x hx => ?_, hserves.size⟩, rfl, rfl⟩
  obtain ⟨y, hy⟩ := hids v hv
  obtain rfl : y = x := Option.some.inj ((h4.steps.onward.nodeType _ y hy).symm.trans hx)
  exact hserves.slots v hv y hy

lemma Begins.judges (h : Begins p plan s) :
    Judges (hierarchies p.declarations) p.allDecls s.toContext :=
  judges_hierarchies fun d hd =>
    h.typed _ (List.mem_flatMap.mpr ⟨d, hd, d.node_mem_signature⟩)

/-- The second walk up to variables and bodies. Checking the hierarchy leaves the context as it
is. -/
lemma begins_of_stages {c5 : Context} (hp : p.Numbered)
    (hcollect : Runs (Collect.program mode p) {} () c1)
    (hplan : Runs (Plan.addDecls {} p.id p.declarations) c1 plan c)
    (henter : Runs (mode'.enter .program p.id p.location) c () c3)
    (hsig : Runs (signatures mode' p.declarations) c3 () c4)
    (hhier : Runs (hierarchies p.declarations) c4 () c5) :
    c = c1 ∧ c5 = c4 ∧ Begins p plan { toContext := c5 } := by
  obtain ⟨rfl, -⟩ := serves_of_plan hp hcollect hplan
  have hbegins := begins_of_signatures hp hcollect hplan henter hsig
  obtain ⟨rfl, -⟩ := hbegins.judges.runs hhier
  exact ⟨rfl, rfl, hbegins⟩

/-- The stages of the second walk. -/
lemma stages_of_program (hp : p.Numbered) (hcollect : Runs (Collect.program mode p) {} () c1)
    (hr : Runs (program mode' p) c1 () c2) : ∃ plan c3 s s', Begins p plan s ∧
      Runs (mode'.enter .program p.id p.location) c1 () c3 ∧
      Runs (signatures mode' p.declarations) c3 () s.toContext ∧
      Runs (hierarchies p.declarations) s.toContext () s.toContext ∧
      Runs (decls mode' plan p.declarations) s () s' ∧ c2 = mode'.leave s'.toContext := by
  simp only [program, runs_bind, runs_toCheck] at hr
  obtain ⟨plan, c, hplan, _, hr, rfl⟩ := hr
  obtain ⟨c3, s', henter, hbody, rfl⟩ := runs_inScope hr
  simp only [runs_bind, runs_lift] at hbody
  obtain ⟨_, _, ⟨c4, hsig, rfl⟩, _, _, ⟨c5, hhier, rfl⟩, hdecls⟩ := hbody
  obtain ⟨rfl, rfl, hbegins⟩ := begins_of_stages hp hcollect hplan henter hsig hhier
  exact ⟨plan, c3, _, s', hbegins, henter, hsig, hhier, hdecls, rfl⟩

/-- **The second walk**, after the signatures and the class hierarchy. -/
lemma begins_of_program (hp : p.Numbered) (hcollect : Runs (Collect.program mode p) {} () c1)
    (hr : Runs (program mode' p) c1 () c2) :
    ∃ plan s s', Begins p plan s ∧ Runs (decls mode' plan p.declarations) s () s' ∧
      c2 = mode'.leave s'.toContext := by
  obtain ⟨plan, c3, s, s', hbegins, -, -, -, hdecls, rfl⟩ := stages_of_program hp hcollect hr
  exact ⟨plan, s, s', hbegins, hdecls, rfl⟩

end Resolve

end Sema
