import Sema.Proofs.Accepted
import Sema.Proofs.Scopes

/-!
What steps do to the scopes that are open. Every pass leaves the same scopes open as it found,
whatever it was given and however it ends. Inside an expression nothing at all is done to scopes:
a variable that is demanded on the way is resolved with other scopes open, but declares no name
there, since it belongs to the program or to a class.
-/

namespace Sema

open Sema.Action Context

/-! ### Passes -/

namespace Pass

lemma stack_onContext {P : Shape → Prop} {x : Program → Check Unit}
    (hx : ∀ p, Within (Grows P) (x p)) (a : Analysis) :
    ((onContext x).outcome a).2.context.stack = a.context.stack :=
  (hx a.program a.context).stack

lemma context_liftExcept {α β : Type} (x : Except Fault α) (f : α → Action Analysis β)
    (a : Analysis) (hf : ∀ v, ((f v).outcome a).2.context = a.context) :
    ((run.liftExcept x >>= f).outcome a).2.context = a.context := by
  rw [outcome_bind]
  cases x with
  | error f => rfl
  | ok v => exact hf v

/-- **The open scopes are restored.** Every pass, in every mode, from every context and for every
program, leaves the scopes open that were open before, in the same order, whether it ends well or
in a fault. -/
theorem stack_restored (pass : Pass) (a : Analysis) :
    (pass.run.outcome a).2.context.stack = a.context.stack := by
  cases pass with
  | hoist => rfl
  | entryPoint =>
    exact congrArg Context.stack (context_liftExcept a.program.withEntryPoint _ a fun _ => rfl)
  | collect mode =>
    exact stack_onContext (P := fun _ => True)
      (fun p => ScopeMode.within_inScope (Collect.within_decls mode _)) a
  | resolve mode =>
    exact stack_onContext (P := fun _ => True)
      (fun p => Resolve.within_program mode p) a
  | completeness => rfl
  | nullability => rfl
  | flow =>
    obtain ⟨g, hg⟩ := a.context.recordFlows_eq a.program.declarations
    change (a.context.recordFlows a.program.declarations).stack = a.context.stack
    rw [hg]

end Pass

/-! ### Expressions -/

namespace Context

variable {plan : Plan} {c c1 c' : Context} {id : ScopeId}

lemma SameScopes.scope? (h : SameScopes c c') (id : ScopeId) : c'.scope? id = c.scope? id := by
  rw [Context.scope?, h.scopes]
  rfl

lemma SameScopes.currentKind? (h : SameScopes c c') : c'.currentKind? = c.currentKind? := by
  have hkind : c'.scopeKind? = c.scopeKind? := by
    funext id
    rw [scopeKind?, scopeKind?, h.scope?]
  rw [Context.currentKind?, Context.currentKind?, current?, current?, h.stack, hkind]

/-- The variables that can be demanded do not belong to the bodies of functions. -/
def Outside (plan : Plan) (c : Context) : Prop :=
  ∀ n v id, plan.pending.get? n = some v → c.scopeOf? v.owner = some id →
    c.scopeKind? id ≠ some .body

lemma SameScopes.outside (h : SameScopes c c') (hc : c.Outside plan) : c'.Outside plan := by
  intro n v id hv hid
  rw [scopeKind?, h.scope?]
  exact hc n v id hv (by rwa [← h.scopeOf?])

/-- Nothing is done to scopes, as long as only variables outside of bodies are demanded. -/
def Quiet (plan : Plan) (c c' : Context) : Prop :=
  c.Outside plan → SameScopes c c'

instance : Std.Refl (Quiet plan) := ⟨fun c _ => Std.Refl.refl c⟩

instance : IsTrans Context (Quiet plan) :=
  ⟨fun _ _ _ h1 h2 hc => (h1 hc).trans (h2 ((h1 hc).outside hc))⟩

instance : Retypes (fun _ => True) (Quiet plan) where
  plain _ := trivial
  alloc hp _ := Retypes.alloc hp
  copy y _ := Retypes.copy y
  assign x y _ := Retypes.assign x y
  slotOf n _ := Retypes.slotOf n
  bind n x _ := Retypes.bind n x
  setShape hp _ := Retypes.setShape hp

/-- The innermost scope around a scope is the scope itself. -/
lemma head?_around (c : Context) (id : ScopeId) : (c.around id).head? = some id := by
  simp [around, Graph.trail, Graph.trailFrom]

end Context

namespace Resolve

variable {plan : Plan}

/-- A variable that is resolved outside of bodies declares nothing. -/
lemma quiet_variableDecl {demand : NodeId → Resolve Unit}
    (hd : ∀ n, Within (Resolving.Along (Quiet plan)) (demand n)) (v : VariableDecl)
    {s : Resolving} (hs : s.Outside plan) (hkind : s.currentKind? ≠ some .body) :
    SameScopes s.toContext ((variableDecl plan demand v).outcome s).2.toContext := by
  have htype : Within (Resolving.Along (Quiet plan))
      (whileResolving v.id (variableType plan demand v)) :=
    within_whileResolving (within_variableType plan hd v)
  unfold variableDecl
  rw [outcome_bind]
  change SameScopes s.toContext (Action.outcome (ite _ _ _) s).2.toContext
  split
  · exact Std.Refl.refl _
  · rw [outcome_bind]
    have hsame : SameScopes s.toContext
        ((whileResolving v.id (variableType plan demand v)).outcome s).2.toContext := htype s hs
    revert hsame
    rcases (whileResolving v.id (variableType plan demand v)).outcome s with ⟨f | u, s1⟩ <;>
      intro hsame
    · exact hsame
    · have hkind1 : s1.currentKind? ≠ some .body := by rwa [hsame.currentKind?]
      simp only [outcome_bind, outcome_modify, outcome_get]
      rw [if_neg hkind1]
      exact hsame

lemma quiet_demandWithin (plan : Plan) : ∀ (depth : Nat) (n : NodeId),
    Within (Resolving.Along (Quiet plan)) (demandWithin plan depth n)
  | 0, _ => within_pure _
  | depth + 1, n => by
    have htaken : Within (Resolving.Along (Quiet plan)) (isTaken n) := within_map within_get
    unfold demandWithin
    split
    · exact within_pure _
    · next v hv =>
      refine within_bind htaken fun taken => ?_
      split
      · exact within_pure _
      · refine within_get_bind fun s hs => ?_
        split
        · exact Std.Refl.refl _
        · next id hid =>
          have hkind : ({ s with stack := s.around id } : Resolving).currentKind? ≠ some .body := by
            rw [Context.currentKind?, Context.current?, head?_around]
            exact hs n v id hv hid
          have hv := quiet_variableDecl (quiet_demandWithin plan depth) v.decl
            (s := { s with stack := s.around id }) hs hkind
          unfold withStack
          simp only [outcome_bind, outcome_get, outcome_bracket, outcome_modify, outcome_within]
          exact ⟨hv.scopes, rfl, hv.nodeScopes⟩

lemma quiet_demand (plan : Plan) (n : NodeId) :
    Within (Resolving.Along (Quiet plan)) (demand plan n) :=
  quiet_demandWithin plan plan.size n

/-- **Expressions leave scopes alone**, also where they demand variables. -/
lemma quiet_expr (plan : Plan) (e : Expr) :
    Within (Resolving.Along (Quiet plan)) (expr plan (demand plan) e) :=
  within_expr plan (quiet_demand plan) e

lemma quiet_condition (plan : Plan) (e : Expr) :
    Within (Resolving.Along (Quiet plan)) (condition plan e) := by
  refine within_bind (quiet_expr plan e) fun _ => within_bind within_get fun _ => ?_
  dsimp only
  split
  · exact within_pure _
  · exact within_fail _ _

end Resolve

end Sema
