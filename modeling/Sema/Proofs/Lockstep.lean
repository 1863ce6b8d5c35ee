import Sema.Proofs.Growth
import Sema.Proofs.Manner

/-!
Two walks in step. The lists of the variables that are under way and of those that are done are
looked at in one place only, where the second walk asks whether a variable is taken. So two walks
that keep these lists in different ways, or that answer demands in different ways, do the same as
long as they agree on which variables are taken. Steps in step are put together to steps in step, so
that any two rules that go in step make walks that do.
-/

namespace Sema

open Sema.Action

/-! ### Steps in step -/

namespace Resolving

/-- States that are related have one context, and may get any other one. -/
structure Blind (R : Resolving → Resolving → Prop) : Prop where
  context {s t : Resolving} : R s t → t.toContext = s.toContext
  replace {s t : Resolving} : R s t → ∀ c, R { s with toContext := c } { t with toContext := c }

lemma Blind.map {R : Resolving → Resolving → Prop} (hR : Blind R) {s t : Resolving} (h : R s t)
    (f : Context → Context) :
    R { s with toContext := f s.toContext } { t with toContext := f t.toContext } := by
  rw [hR.context h]
  exact hR.replace h _

/-- How two walks are related as long as they go on, and when they end in a fault. -/
structure Bond (R F : Resolving → Resolving → Prop) : Prop where
  run : Blind R
  stop : Blind F
  fault {s t : Resolving} : R s t → F s t
  taken {s t : Resolving} : R s t → ∀ n, t.Taken n ↔ s.Taken n

end Resolving

namespace Resolve

open Resolving

variable {α β : Type} {R F R1 F1 R2 : Resolving → Resolving → Prop} {s t : Resolving}

/-- Both steps give the same and leave related states, or both end in the same fault. -/
inductive Lockstep (R F : Resolving → Resolving → Prop) (x y : Resolve α) (s t : Resolving) : Prop
  | ok {a : α} {s' t' : Resolving} (hx : Runs x s a s') (hy : Runs y t a t') (h : R s' t')
  | error {f : Fault} {s' t' : Resolving} (hx : x.outcome s = (.error f, s'))
      (hy : y.outcome t = (.error f, t')) (h : F s' t')

namespace Lockstep

variable {x y : Resolve α}

lemma pure {a : α} (h : R s t) : Lockstep R F (pure a) (pure a) s t :=
  .ok rfl rfl h

lemma fail {cause : Cause} {l : Location} (h : F s t) :
    Lockstep R F (fail cause l : Resolve α) (fail cause l) s t :=
  .error rfl rfl h

/-- Only what the two steps give from their states matters. -/
lemma congr {x' y' : Resolve α} {s1 t1 : Resolving} (hxy : Lockstep R F x' y' s1 t1)
    (hx : x.outcome s = x'.outcome s1) (hy : y.outcome t = y'.outcome t1) :
    Lockstep R F x y s t := by
  cases hxy with
  | ok hx' hy' h => exact .ok (hx.trans hx') (hy.trans hy') h
  | error hx' hy' h => exact .error (hx.trans hx') (hy.trans hy') h

/-- Both steps give the same, and what holds of the states after a fault holds at the end. -/
lemma outcome (hxy : Lockstep R F x y s t) (hRF : ∀ s' t', R s' t' → F s' t') :
    (y.outcome t).1 = (x.outcome s).1 ∧ F (x.outcome s).2 (y.outcome t).2 := by
  cases hxy with
  | ok hx hy h =>
    rw [hx, hy]
    exact ⟨rfl, hRF _ _ h⟩
  | error hx hy h =>
    rw [hx, hy]
    exact ⟨rfl, h⟩

lemma imp (hxy : Lockstep R F x y s t) (hR : ∀ s' t', R s' t' → R1 s' t')
    (hF : ∀ s' t', F s' t' → F1 s' t') : Lockstep R1 F1 x y s t := by
  cases hxy with
  | ok hx hy h => exact .ok hx hy (hR _ _ h)
  | error hx hy h => exact .error hx hy (hF _ _ h)

lemma bind {f g : α → Resolve β} (hxy : Lockstep R1 F x y s t)
    (hfg : ∀ a s' t', R1 s' t' → Lockstep R F (f a) (g a) s' t') :
    Lockstep R F (x >>= f) (y >>= g) s t := by
  cases hxy with
  | @ok a s1 t1 hx hy h =>
    exact (hfg a s1 t1 h).congr (by rw [outcome_bind, hx]) (by rw [outcome_bind, hy])
  | error hx hy h => exact .error (by rw [outcome_bind, hx]) (by rw [outcome_bind, hy]) h

lemma within {name : String} (hxy : Lockstep R F x y s t) :
    Lockstep R F (x.within name) (y.within name) s t := by
  cases hxy with
  | ok hx hy h => exact .ok (runs_within.mpr hx) (runs_within.mpr hy) h
  | error hx hy h =>
    exact .error (by rw [outcome_within, hx]; rfl) (by rw [outcome_within, hy]; rfl) h

lemma get_bind {f g : Resolving → Resolve α} (h : Lockstep R F (f s) (g t) s t) :
    Lockstep R F (get >>= f) (get >>= g) s t :=
  h.congr (by rw [outcome_bind, outcome_get]) (by rw [outcome_bind, outcome_get])

/-- Between entering and leaving the states may be related in another way. -/
lemma bracket {enter enter' : Resolve Unit} {leave leave' : Resolving → Resolving}
    (henter : Lockstep R1 F enter enter' s t)
    (hbody : ∀ s' t', R1 s' t' → Lockstep R2 F1 x y s' t')
    (hR : ∀ s' t', R2 s' t' → R (leave s') (leave' t'))
    (hF : ∀ s' t', F1 s' t' → F (leave s') (leave' t')) :
    Lockstep R F (Action.bracket enter leave x) (Action.bracket enter' leave' y) s t := by
  cases henter with
  | @ok _ s1 t1 hin hin' h =>
    have hx' : (Action.bracket enter leave x).outcome s =
        ((x.outcome s1).1, leave (x.outcome s1).2) := by rw [outcome_bracket, hin]
    have hy' : (Action.bracket enter' leave' y).outcome t =
        ((y.outcome t1).1, leave' (y.outcome t1).2) := by rw [outcome_bracket, hin']
    cases hbody s1 t1 h with
    | ok hx hy h =>
      rw [hx] at hx'
      rw [hy] at hy'
      exact .ok hx' hy' (hR _ _ h)
    | error hx hy h =>
      rw [hx] at hx'
      rw [hy] at hy'
      exact .error hx' hy' (hF _ _ h)
  | error hin hin' h =>
    exact .error (by rw [outcome_bracket, hin]) (by rw [outcome_bracket, hin']) h

variable (hB : Bond R F) (h : R s t)

include hB h

/-- A step on the context alone does not tell the states apart. -/
lemma ofCheck (x : Check α) : Lockstep R F (ofCheck x) (ofCheck x) s t := by
  have hy : (Resolve.ofCheck x).outcome t =
      ((x.outcome s.toContext).1, { t with toContext := (x.outcome s.toContext).2 }) := by
    rw [outcome_ofCheck, hB.run.context h]
  rcases hx : x.outcome s.toContext with ⟨f | a, c⟩
  · rw [hx] at hy
    exact .error (by rw [outcome_ofCheck, hx]) hy (hB.fault (hB.run.replace h c))
  · rw [hx] at hy
    exact .ok (by rw [Runs, outcome_ofCheck, hx]) hy (hB.run.replace h c)

lemma refuse {p : Prop} [Decidable p] {cause : Cause} {l : Location}
    (hxy : ¬ p → Lockstep R F x y s t) :
    Lockstep R F (if p then (Sema.fail cause l : Resolve PUnit) >>= fun _ => x else x)
      (if p then (Sema.fail cause l : Resolve PUnit) >>= fun _ => y else y) s t := by
  split
  · exact .error rfl rfl (hB.fault h)
  · next hp => exact hxy hp

lemma unlessTaken {x y : Resolve Unit} (n : NodeId) (hxy : ¬ s.Taken n → Lockstep R F x y s t) :
    Lockstep R F (isTaken n >>= fun taken => if taken then Pure.pure () else x)
      (isTaken n >>= fun taken => if taken then Pure.pure () else y) s t := by
  by_cases hn : s.Taken n
  · have hn' := (hB.taken h n).mpr hn
    exact .ok (by rw [Runs, outcome_unlessTaken, if_pos hn])
      (by rw [Runs, outcome_unlessTaken, if_pos hn']) h
  · have hn' := mt (hB.taken h n).mp hn
    exact (hxy hn).congr (by rw [outcome_unlessTaken, if_neg hn])
      (by rw [outcome_unlessTaken, if_neg hn'])

lemma inScope {mode : ScopeMode} {kind : ScopeKind} {node : Node}
    (hbody : ∀ s' t', R s' t' → Lockstep R F x y s' t') :
    Lockstep R F (inScope mode kind node x) (inScope mode kind node y) s t :=
  .bracket (.ofCheck hB h _) hbody (fun _ _ h => hB.run.map h mode.leave)
    fun _ _ h => hB.stop.map h mode.leave

lemma withStack {stack : List ScopeId} (hbody : ∀ s' t', R s' t' → Lockstep R F x y s' t') :
    Lockstep R F (withStack stack x) (withStack stack y) s t := by
  refine .get_bind ?_
  rw [hB.run.context h]
  refine .bracket (.ok rfl rfl (hB.run.map h fun c => { c with stack })) hbody
    (fun _ _ h => hB.run.map h fun c => { c with stack := s.stack })
    fun _ _ h => hB.stop.map h fun c => { c with stack := s.stack }

end Lockstep

/-! ### Whole walks -/

/-- From related states, two steps are in step. -/
abbrev InStep (R F : Resolving → Resolving → Prop) (α : Type) (x y : Resolve α) : Prop :=
  ∀ s t, R s t → Lockstep R F x y s t

lemma uniform_inStep (hB : Bond R F) : Uniform (InStep R F) where
  pure _ _ _ h := .pure h
  fail _ _ _ _ h := .fail (hB.fault h)
  bind hxy hfg s t h := (hxy s t h).bind fun a s' t' h' => hfg a s' t' h'
  get hfg s t h := .get_bind (hfg s t (hB.run.context h) s t h)
  check _ _ _ h := .ofCheck hB h _

variable {r r' : Rules} {plan : Plan} {demand demand' : NodeId → Resolve Unit}

/-- **Expressions are resolved in step** if demands are answered in step. -/
lemma lockstep_expr (hB : Bond R F) (hd : ∀ n, InStep R F Unit (demand n) (demand' n)) (e : Expr)
    (h : R s t) : Lockstep R F (expr plan demand e) (expr plan demand' e) s t :=
  uniform_expr (uniform_inStep hB) hd e s t h

end Resolve

end Sema
