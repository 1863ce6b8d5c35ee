import Sema.Proofs.Locals
import Sema.Proofs.Untouched
import Sema.Syntax.Draft

/-!
Where the second walk resolves expressions. What inference leaves alone is certain only as long as
variables that wait have nodes of their own, and an expression is made of others. In a program whose
nodes all have ids of their own this is so wherever the walk resolves an expression or a part of
one, in turn or on demand: the walk is the same if it looks each time, and would do anything else
if it found otherwise.
-/

namespace Sema

open Sema.Action

namespace Resolve

open Classical in
/-- Looks whether inference can be told to leave alone what is there, and does anything if not. -/
noncomputable def looking (plan : Plan) (stray : Resolve Slot) (e : Expr) (x : Resolve Slot) :
    Resolve Slot := do
  let s ← get
  if s.Poised plan ∧ e.nodes.Nodup ∧ s.Unvisited plan e.nodes then x else stray

/-- The manner of a walk that looks before each expression and before each part of one. -/
noncomputable def guarding (stray : Resolve Slot) : Manner where
  initial _ plan demand e := looking plan stray e (exprBy (looking plan stray) plan demand e)
  value plan demand e := looking plan stray e (exprBy (looking plan stray) plan demand e)

end Resolve

/-! ### What is found there -/

namespace Resolving

variable {G : Groundwork} {plan : Plan} {s : Resolving} {ns : List NodeId}

lemma Footing.poised (hs : Footing G s) (hp : plan.Covers G.vars) : s.Poised plan := by
  have hmem : ∀ v, plan.Pends v → v ∈ G.vars := by
    rintro v ⟨n, q, hq, rfl⟩
    exact (hp.pending n q hq).1
  -- what a variable declares has a type from the beginning, and its value has none
  have hcases : ∀ {v n}, plan.Pends v → s.Waits v → n ∈ v.nodes →
      n ∈ (Decl.var v).signature ∧ (∃ x, s.nodeType? n = some x ∧ x < s.types.size) ∨
        n ∈ Expr.nodes? v.value ∧ s.nodeType? n = none := by
    intro v n hv hw hn
    rw [VariableDecl.nodes, ← List.cons_append] at hn
    rcases List.mem_append.mp hn with hn | hn
    · obtain ⟨x, hx, -, hlt⟩ := hs.declared (hmem v hv) hn
      exact .inl ⟨hn, x, hx, hlt.trans_le hs.le⟩
    · exact .inr ⟨hn, hs.waiting v (hmem v hv) hw n hn⟩
  refine ⟨fun v hv _ => hp.nodup v (hmem v hv), fun v w hv hvw hw hww hne n hn hn' => ?_,
    fun v hv => hs.waiting v (hmem v hv), fun n _ => hs.grounded.declared, ?_⟩
  · have hne' : v ≠ w := fun h => hne (by rw [h])
    rcases hcases hv hvw hn with ⟨hn, x, hx, -⟩ | ⟨hn, hnone⟩ <;>
      rcases hcases hw hww hn' with ⟨hn', y, hy, -⟩ | ⟨hn', hnone'⟩
    · exact G.apart v (hmem v hv) w (hmem w hw) hne' hn hn'
    · cases hnone'.symm.trans hx
    · cases hnone.symm.trans hy
    · exact hp.apart v (hmem v hv) w (hmem w hw) hne hn hn'
  · rintro n x ⟨v, hv, hw, hn⟩ hx
    rcases hcases hv hw hn with ⟨-, y, hy, hlt⟩ | ⟨-, hnone⟩
    · obtain rfl : y = x := Option.some.inj (hy.symm.trans hx)
      exact hlt
    · cases hnone.symm.trans hx

lemma Fresh.unvisited (h : Fresh G.vars ns s) (hs : Footing G s) (hp : plan.Covers G.vars) :
    s.Unvisited plan ns := by
  intro n hn
  obtain ⟨hnone, hapart⟩ := h n hn
  have hnot : ¬ ∃ x, s.nodeType? n = some x := by simp [hnone]
  refine ⟨hnone, ?_, fun hd => hnot (hs.grounded.declared hd)⟩
  rintro ⟨_, ⟨k, q, hq, rfl⟩, hw, hm⟩
  rw [VariableDecl.nodes, ← List.cons_append] at hm
  have hv := (hp.pending k q hq).1
  rcases List.mem_append.mp hm with hm | hm
  · exact hnot ((hs.declared hv hm).imp fun _ h => h.1)
  · exact hapart _ hv hw hm

end Resolving

namespace Resolve

open Context Resolving

variable {G : Groundwork} {plan : Plan} {d d' : NodeId → Resolve Unit} {s : Resolving}
  {stray : Resolve Slot} {v : VariableDecl}

lemma outcome_looking {e : Expr} (hp : plan.Covers G.vars) (ha : G.frame.Ahead e.nodes s)
    (x : Resolve Slot) : (looking plan stray e x).outcome s = x.outcome s := by
  have hs : Footing G s := ha.sound
  have hfresh : Fresh G.vars e.nodes s := ha.fresh
  rw [looking, outcome_bind, outcome_get]
  dsimp only
  rw [if_pos ⟨hs.poised hp, ha.nodup, hfresh.unvisited hs hp⟩]

/-- The type of a variable, if its value is resolved in the same way. -/
lemma follows_variableTypeBy {f g : Expr → Resolve Slot} (h : ∀ e y c, v.value = some e →
      Prepares v s.toContext y c →
      (g e).outcome { s with toContext := c } = (f e).outcome { s with toContext := c }) :
    Follows (variableTypeBy f v) (variableTypeBy g v) s fun _ _ => True := by
  refine follows_check_bind fun y c1 hslot => ?_
  rw [Check.runs_slotOf] at hslot
  split
  · next type htype =>
    refine follows_check_bind fun declared c2 hresolve => follows_check_bind fun _ c3 hassign => ?_
    rw [Check.runs_assign] at hassign
    split
    · next e hvalue =>
      refine (Follows.of_same (h e y c3 hvalue ?_)).bind fun _ _ _ => .of_same rfl
      exact ⟨c1, hslot, .inr ⟨type, declared, c2, htype, hresolve, hassign.symm⟩⟩
    · exact .of_same rfl
  · next e htype hvalue =>
    refine (Follows.of_same (h e y c1 hvalue ⟨c1, hslot, .inl ⟨htype, rfl⟩⟩)).bind fun _ _ _ => ?_
    exact .of_same rfl
  · exact .of_same rfl

lemma outcome_variableDeclBy (hd : Attends G.frame (looking plan stray) d d') (hs : Footing G s)
    (hnd : v.nodes.Nodup) (hv : s.Waits v → Due G v s)
    (hfresh : s.Waits v → Fresh G.vars (Expr.nodes? v.value) (s.done v)) :
    (variableDeclBy (guarding stray) plan d' v).outcome s = (variableDecl plan d v).outcome s := by
  refine same_unlessTaken fun hnot => Follows.same (.bind (P := fun _ _ => True)
    (.bracket fun s1 h1 => ?_) fun _ _ _ => .of_same rfl)
  have hw : s.Waits v := not_or.mp hnot
  obtain rfl : s.begun v = s1 := runs_modify.mp h1
  refine follows_variableTypeBy fun e y c hvalue hprepares => (follows_expr hd ?_).same
  exact (prepared hs hnd (hv hw) hprepares).ahead hnd (hfresh hw) hvalue

lemma outcome_planned (hp : plan.Covers G.vars) (hd : Attends G.frame (looking plan stray) d d')
    (hs : Footing G s) (hv : v ∈ G.vars) :
    (variableDeclBy (guarding stray) plan d' v).outcome s = (variableDecl plan d v).outcome s :=
  outcome_variableDeclBy hd hs (hp.nodup v hv) (fun hw => .inl ⟨hv, hw⟩) (fresh_value hp hs hv)

lemma outcome_demandStep {m k : Manner} {n : NodeId} (h : ∀ q stack, plan.pending.get? n = some q →
      (variableDeclBy k plan d' q.decl).outcome { s with stack } =
        (variableDeclBy m plan d q.decl).outcome { s with stack }) :
    (demandStep k plan d' n).outcome s = (demandStep m plan d n).outcome s := by
  unfold demandStep
  split
  · rfl
  · next q hq =>
    refine same_unlessTaken fun _ => Follows.same (Q := fun _ _ => True) (.get_bind ?_)
    split
    · exact .of_same rfl
    · refine .get_bind (.bracket fun s1 h1 => Follows.within (.of_same ?_))
      rw [← runs_modify.mp h1]
      exact h q _ hq

/-- A demand inside a demand is answered one level further down. -/
lemma attends_demandWithin (hp : plan.Covers G.vars) (stray : Resolve Slot) (k : Nat) :
    Attends G.frame (looking plan stray) (demandWithin plan k)
      ((demandStep (guarding stray) plan)^[k] fun _ => pure ()) := by
  have hlook : ∀ {e s} y, G.frame.Ahead e.nodes s →
      (looking plan stray e y).outcome s = y.outcome s := fun y ha => outcome_looking hp ha y
  induction k with
  | zero => exact ⟨hlook, fun n hs => ⟨rfl, fun _ _ h => advances_demandWithin hp 0 hs h⟩⟩
  | succ k ih =>
    refine ⟨hlook, fun n hs => ⟨?_, fun _ _ h => advances_demandWithin hp (k + 1) hs h⟩⟩
    rw [← iterate_demandStep_usual, Function.iterate_succ_apply', Function.iterate_succ_apply',
      iterate_demandStep_usual]
    exact outcome_demandStep fun q stack hq => outcome_planned hp ih (footing_of_stack hs)
      (hp.pending n q hq).1

/-- The walk that looks does what the walk does. -/
lemma conforms_guarding (hp : plan.Covers G.vars) (stray : Resolve Slot) :
    Rules.Conforms (.of (guarding stray) plan) G plan := by
  have hd := attends_demandWithin hp stray plan.size
  refine ⟨hp, fun ha => (follows_expr hd ha).same, fun {v s} h => ?_⟩
  rcases h with ha | ⟨hv, hs⟩
  · obtain ⟨hfresh, hvalue⟩ := fresh_local ha
    exact outcome_variableDeclBy hd ha.sound ha.nodup (fun _ => .inr hfresh) fun _ => hvalue
  · exact outcome_planned hp hd hs hv

/-- **The walk finds what it looks for**, in every program whose nodes have ids of their own. -/
lemma outcome_programBy {p : Program} {mode mode' : ScopeMode} {c : Context} (hp : p.Numbered)
    (hcollect : Runs (Collect.program mode p) {} () c) (stray : Resolve Slot) :
    (programBy (guarding stray) mode' p).outcome c = (program mode' p).outcome c := by
  refine Follows.same (Q := fun _ _ => True)
    (.bind (.of_runs fun _ _ h => h) fun plan c1 hplan => ?_)
  suffices h : Follows (walk mode' plan p) (walk mode' (.of (guarding stray) plan) p)
      { toContext := c1 } fun _ _ => True from
    .of_same (by rw [outcome_toCheck, outcome_toCheck, h.same])
  refine .bracket fun s1 h1 => ?_
  obtain ⟨c2, henter, rfl⟩ := runs_ofCheck.mp h1
  refine follows_check_bind fun _ c3 hsig => follows_check_bind fun _ c4 hhier => ?_
  obtain ⟨-, -, hbegins⟩ := begins_of_stages hp hcollect hplan henter hsig hhier
  exact (follows_decls (conforms_guarding (hbegins.covers hp) stray)
    (hbegins.reached hp (r := False) False.elim)).imp fun _ _ _ => trivial

end Resolve

/-! ### Inference after resolution -/

namespace Infer

open Context Resolving

/-- Inference leaves alone the slots that existed before the expression was resolved from `s` to
`s'`, and changes nothing but contents of slots. -/
def Spares (s s' : Resolving) (target : Slot) (e : Expr) : Prop :=
  ∃ types : TypeStore,
    ((Infer.expr target e).outcome s'.toContext).2 = { s'.toContext with types := types } ∧
      types.size = s'.types.size ∧ ∀ x < s.types.size, types.get x = s'.types.get x

lemma spares_of_ahead {plan : Plan} {s s' : Resolving} {e : Expr} {found : Slot} {depth : Nat}
    (ha : (roaming plan).Ahead e.nodes s)
    (hr : Runs (Resolve.expr plan (Resolve.demandWithin plan depth) e) s found s') (target : Slot) :
    Spares s s' target e := by
  obtain ⟨P, hP, hlaid⟩ :=
    (Resolve.resolves_expr (Resolve.roams_demandWithin depth) ha hr).isOpen
  have hw := ((hlaid e (List.mem_singleton_self e)).writesIn (t := target) (fun _ hx => hx.2.2)
    (.refl _)).state
  exact ⟨_, hw.rest, hw.size, fun x hx => hw.get x fun hp => Nat.not_le.mpr hx (hP x hp).1⟩

/-- **Inference never touches declared types.** An expression whose nodes are all different and have
no types yet is resolved, however deep in demands, and then an expected type is carried into it.
Whether this ends well or in a fault, every slot that existed before has the contents that it had
after resolution, and nothing else in the context has changed but the contents of slots; provided
that the variables that wait have nodes of their own and that the expression is made of others. In
a program whose nodes have ids of their own this is so wherever the second walk resolves an
expression or a part of one: the walk that looks each time, and would do anything else if it found
otherwise, is the same. -/
theorem old_slots_untouched :
    (∀ (plan : Plan) (depth : Nat) (s s' : Resolving) (e : Expr) (found target : Slot),
      s.Poised plan → e.nodes.Nodup → s.Unvisited plan e.nodes →
      Runs (Resolve.expr plan (Resolve.demandWithin plan depth) e) s found s' →
        Spares s s' target e) ∧
    ∀ (p : Program) (mode mode' : ScopeMode) (c : Context), p.Numbered →
      Runs (Collect.program mode p) {} () c → ∀ stray,
        (Resolve.programBy (Resolve.guarding stray) mode' p).outcome c =
          (Resolve.program mode' p).outcome c :=
  ⟨fun _ _ _ _ _ _ target hs hnd hnew hr => spares_of_ahead ⟨hs, hnd, hnew⟩ hr target,
    fun _ _ _ _ hp hcollect stray => Resolve.outcome_programBy hp hcollect stray⟩

/-- A variable that waits, `var total = [1]`, and an expression that demands it,
`\x7bsum: total, rows: [null], rest: total\x7d`. -/
def demanding : VariableDecl × Expr :=
  (StateT.run (m := Id) (do
    let total ← Draft.variableDecl "total" none
      (some (← Draft.array [← Draft.literal (.integer "1")]))
    let rows ← Draft.array [← Draft.literal .null]
    let value ← Draft.record [("sum", ← Draft.identifier "total"), ("rows", rows),
      ("rest", ← Draft.identifier "total")]
    return (total, value)) {}).1

def demandingPlan : Plan :=
  ({} : Plan).add demanding.1 0 0

/-- Nothing is known about the variable yet. The last slot is the type that is expected, a record
without the field `rest`. -/
def demandingStart : Resolving where
  types := ⟨#[.unknown, .number .int, .generic "Array" [1], .generic "Optional" [1],
    .generic "Array" [3], .record 0 [("sum", 2), ("rows", 4)]]⟩
  scopes := #[⟨0, none, .program, 0, [⟨"total", .value, 0, demanding.1.id⟩], false⟩]
  stack := [0]
  nodeTypes := ({} : Table Slot).insert demanding.1.id 0
  nodeScopes := ({} : Table ScopeId).insert 0 0

lemma eq_of_pends {v : VariableDecl} (h : demandingPlan.Pends v) : v = demanding.1 :=
  h.of_add.resolve_right Plan.not_pends_empty

lemma poised_demandingStart : demandingStart.Poised demandingPlan := by
  have hmem : ∀ {n}, demandingStart.Awaits demandingPlan n → n ∈ demanding.1.nodes := by
    rintro n ⟨v, hv, -, hn⟩
    exact eq_of_pends hv ▸ hn
  have hregular : ∀ n ∈ demanding.1.nodes, demandingStart.Declared n →
      demandingStart.nodeType? n = some 0 := by
    decide +kernel
  have hlt : ∀ n ∈ demanding.1.nodes, ∀ x ∈ demandingStart.nodeType? n,
      x < demandingStart.types.size := by
    decide +kernel
  refine ⟨fun v hv _ => ?_, fun v w hv _ hw _ hne => ?_, fun v hv _ => ?_,
    fun n ha hd => ⟨0, hregular n (hmem ha) hd⟩, fun n x ha hx => hlt n (hmem ha) x hx⟩
  · rw [eq_of_pends hv]
    decide +kernel
  · exact absurd (by rw [eq_of_pends hv, eq_of_pends hw]) hne
  · rw [eq_of_pends hv]
    decide +kernel

/-- `var a: \x7bx: Int, y: Optional<Int>\x7d = \x7bx: b, y: null\x7d`, and after it `var b = c` and
`var c: Int`. -/
def laterVariables : Program :=
  (StateT.run (m := Id) (do
    let type ← Draft.recordType [("x", ← Draft.namedType "Int" []),
      ("y", ← Draft.optionalType (← Draft.namedType "Int" []))]
    let value ← Draft.record [("x", ← Draft.identifier "b"), ("y", ← Draft.literal .null)]
    let a ← Draft.variableDecl "a" (some type) (some value)
    let b ← Draft.variableDecl "b" none (some (← Draft.identifier "c"))
    let c ← Draft.variableDecl "c" (some (← Draft.namedType "Int" [])) none
    Draft.program [.var a, .var b, .var c] []) {}).1

/-- The variable is resolved on the way, the array in the field `rows` is filled, and then inference
ends in a fault. In the program, the walk demands a variable whose own value demands another. -/
theorem old_slots_untouched_demanding :
    (∃ s', Runs (Resolve.expr demandingPlan (Resolve.demand demandingPlan) demanding.2)
        demandingStart 12 s' ∧
      s'.types.display 12 = "\x7bsum: Array<Int>, rows: Array<<deferred>>, rest: Array<Int>\x7d" ∧
      ((Infer.expr 5 demanding.2).outcome s'.toContext).1.toOption = none ∧
      ((Infer.expr 5 demanding.2).outcome s'.toContext).2.types.display 12 =
        "\x7bsum: Array<Int>, rows: Array<Optional<Int>>, rest: Array<Int>\x7d" ∧
      Spares demandingStart s' 5 demanding.2) ∧
    ∃ c, Runs (Collect.program .fresh laterVariables) {} () c ∧
      ((Resolve.program .reopen laterVariables).outcome c).1.toOption = some () ∧
      ∀ stray, (Resolve.programBy (Resolve.guarding stray) .reopen laterVariables).outcome c =
        (Resolve.program .reopen laterVariables).outcome c := by
  have hr : Runs (Resolve.expr demandingPlan (Resolve.demand demandingPlan) demanding.2)
      demandingStart 12 _ := runs_of_toOption (by decide +kernel)
  have hnew : demandingStart.Unvisited demandingPlan demanding.2.nodes := by
    have h : ∀ n ∈ demanding.2.nodes, demandingStart.nodeType? n = none ∧
        n ∉ demanding.1.nodes ∧ ¬ demandingStart.Declared n := by
      decide +kernel
    intro n hn
    obtain ⟨hnone, hnot, hdecl⟩ := h n hn
    refine ⟨hnone, ?_, hdecl⟩
    rintro ⟨v, hv, -, hm⟩
    exact hnot (eq_of_pends hv ▸ hm)
  have hcollect : Runs (Collect.program .fresh laterVariables) {} () _ :=
    runs_of_toOption (by decide +kernel)
  exact ⟨⟨_, hr, by decide +kernel, by decide +kernel, by decide +kernel,
      old_slots_untouched.1 _ _ _ _ _ _ 5 poised_demandingStart (by decide +kernel) hnew hr⟩,
    _, hcollect, by decide +kernel,
    old_slots_untouched.2 _ _ _ _ ⟨by decide +kernel, by decide +kernel⟩ hcollect⟩

/-- A variable that waits, `var v = w`, and an expression `\x7bx: v, y: null\x7d` in which `null`
has the node of `w`. -/
def sharing : VariableDecl × Expr :=
  (StateT.run (m := Id) (do
    let w ← Draft.identifier "w"
    let v ← Draft.variableDecl "v" none (some w)
    let value ← Draft.record [("x", ← Draft.identifier "v"), ("y", .literal w.node .null)]
    return (v, value)) {}).1

def sharingPlan : Plan :=
  ({} : Plan).add sharing.1 0 0

def sharingStart : Resolving where
  types := ⟨#[.unknown, .string, .number .int, .generic "Optional" [2],
    .record 0 [("x", 1), ("y", 3)]]⟩
  scopes := #[⟨0, none, .program, 0,
    [⟨"v", .value, 0, sharing.1.id⟩, ⟨"w", .value, 0, 100⟩], false⟩]
  stack := [0]
  nodeTypes := (({} : Table Slot).insert sharing.1.id 0).insert 100 1
  nodeScopes := ({} : Table ScopeId).insert 0 0

/-- Slots that existed before may change all the same. That of a variable that is demanded is
written when the expression is resolved; and if a variable that waits shares a node with the
expression, inference writes a slot that existed: here that of `w`, which was a string. -/
theorem old_slots_written :
    (demanding.2.nodes.Nodup ∧ (∀ n ∈ demanding.2.nodes, demandingStart.nodeType? n = none) ∧
      ∃ s', Runs (Resolve.expr demandingPlan (Resolve.demand demandingPlan) demanding.2)
          demandingStart 12 s' ∧
        demandingStart.types.get 0 = .unknown ∧
        ((Infer.expr 5 demanding.2).outcome s'.toContext).2.types.display 0 = "Array<Int>") ∧
    sharing.2.nodes.Nodup ∧ (∀ n ∈ sharing.2.nodes, sharingStart.nodeType? n = none) ∧
      ∃ s', Runs (Resolve.expr sharingPlan (Resolve.demand sharingPlan) sharing.2)
          sharingStart 5 s' ∧
        sharingStart.types.get 1 = .string ∧ s'.types.get 1 = .deferred ∧
        ((Infer.expr 4 sharing.2).outcome s'.toContext).2.types.display 1 = "Optional<Int>" :=
  ⟨⟨by decide +kernel, by decide +kernel, _, runs_of_toOption (by decide +kernel),
      by decide +kernel, by decide +kernel⟩,
    by decide +kernel, by decide +kernel, _, runs_of_toOption (by decide +kernel),
    by decide +kernel, by decide +kernel, by decide +kernel⟩

end Infer

end Sema
