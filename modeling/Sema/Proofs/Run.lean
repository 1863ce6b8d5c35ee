import Mathlib.Order.Nat
import Mathlib.Tactic.Common
import Sema.Typing.Resolving

/-!
How steps run. A step that ends well is described by the state it starts from, the value it gives
and the state it leaves; a sequence of steps ends well when each of them does. What every step
keeps, also one that ends in a fault, is kept by a sequence.
-/

namespace Sema
namespace Action

variable {σ α β : Type} {cause : Cause} {f : Fault} {l : Location} {name : String}

/-- What a step gives from a state, and the state that it leaves. -/
def outcome (x : Action σ α) (s : σ) : Except Fault α × σ :=
  x.run.run s

@[simp] lemma outcome_pure (a : α) (s : σ) : (pure a : Action σ α).outcome s = (.ok a, s) := rfl

@[simp] lemma outcome_get (s : σ) : (get : Action σ σ).outcome s = (.ok s, s) := rfl

@[simp] lemma outcome_set (s t : σ) : (set t : Action σ PUnit).outcome s = (.ok ⟨⟩, t) := rfl

@[simp] lemma outcome_modifyGet (f : σ → α × σ) (s : σ) :
    (modifyGet f : Action σ α).outcome s = (.ok (f s).1, (f s).2) := rfl

@[simp] lemma outcome_modify (f : σ → σ) (s : σ) :
    (modify f : Action σ PUnit).outcome s = (.ok ⟨⟩, f s) := rfl

@[simp] lemma outcome_throw (f : Fault) (s : σ) :
    (throw f : Action σ α).outcome s = (.error f, s) := rfl

@[simp] lemma outcome_fail (cause : Cause) (l : Location) (s : σ) :
    (fail cause l : Action σ α).outcome s = (.error { cause, location := l }, s) := rfl

lemma outcome_bind (x : Action σ α) (f : α → Action σ β) (s : σ) :
    (x >>= f).outcome s = match x.outcome s with
      | (.ok a, s1) => (f a).outcome s1
      | (.error e, s1) => (.error e, s1) := by
  change (ExceptT.bindCont f (x s).1) (x s).2 = match x s with
      | (.ok a, s1) => (f a) s1
      | (.error e, s1) => (.error e, s1)
  rcases x s with ⟨_ | a, s1⟩ <;> rfl

lemma outcome_map (x : Action σ α) (f : α → β) (s : σ) :
    (f <$> x).outcome s = ((x.outcome s).1.map f, (x.outcome s).2) := by
  rw [map_eq_pure_bind, outcome_bind]
  rcases x.outcome s with ⟨_ | a, s1⟩ <;> rfl

lemma outcome_within (name : String) (x : Action σ α) (s : σ) :
    (x.within name).outcome s =
      ((x.outcome s).1.mapError (·.within name), (x.outcome s).2) := by
  rcases h : x.outcome s with ⟨f | a, s1⟩
  all_goals
    simp_all [outcome, within, ExceptT.run, ExceptT.mk, StateT.run, bind, StateT.bind,
      Except.mapError]
    rfl

lemma outcome_orElseFault (f : Fault) (x : Action σ α) (s : σ) :
    (x.orElseFault f).outcome s =
      ((x.outcome s).1.mapError fun _ => f, (x.outcome s).2) := by
  rcases h : x.outcome s with ⟨_ | a, s1⟩
  all_goals
    simp_all [outcome, orElseFault, ExceptT.run, ExceptT.mk, StateT.run, bind, StateT.bind,
      Except.mapError]
    rfl

lemma outcome_bracket (enter : Action σ Unit) (leave : σ → σ) (body : Action σ α) (s : σ) :
    (bracket enter leave body).outcome s = match enter.outcome s with
      | (.ok _, s1) => ((body.outcome s1).1, leave (body.outcome s1).2)
      | (.error e, s1) => (.error e, s1) := by
  unfold bracket
  rw [outcome_bind]
  rcases enter.outcome s with ⟨_ | a, s1⟩ <;> rfl

/-! ### Steps that end well -/

/-- The step ends well: from `s` it gives `a` and leaves `s'`. -/
def Runs (x : Action σ α) (s : σ) (a : α) (s' : σ) : Prop :=
  x.outcome s = (.ok a, s')

/-- What a step gives can be computed, and then it runs. -/
lemma runs_of_toOption {x : Action σ α} {s : σ} {a : α}
    (h : (x.outcome s).1.toOption = some a) : Runs x s a (x.outcome s).2 := by
  refine Prod.ext ?_ rfl
  revert h
  rcases (x.outcome s).1 with _ | b
  · intro h
    cases h
  · exact fun h => congrArg _ (Option.some.inj h)

@[simp] lemma runs_pure {a b : α} {s s' : σ} :
    Runs (pure a : Action σ α) s b s' ↔ a = b ∧ s = s' := by
  simp [Runs]

@[simp] lemma runs_bind {x : Action σ α} {f : α → Action σ β} {s s' : σ} {b : β} :
    Runs (x >>= f) s b s' ↔ ∃ a s1, Runs x s a s1 ∧ Runs (f a) s1 b s' := by
  unfold Runs
  rw [outcome_bind]
  rcases x.outcome s with ⟨_ | a, s1⟩ <;> simp

@[simp] lemma runs_map {x : Action σ α} {f : α → β} {s s' : σ} {b : β} :
    Runs (f <$> x) s b s' ↔ ∃ a, Runs x s a s' ∧ f a = b := by
  rw [map_eq_pure_bind, runs_bind]
  simp

@[simp] lemma runs_get {s a s' : σ} : Runs (get : Action σ σ) s a s' ↔ s = a ∧ s = s' := by
  simp [Runs]

@[simp] lemma runs_set {s t s' : σ} {u : PUnit} :
    Runs (set t : Action σ PUnit) s u s' ↔ t = s' := by
  simp [Runs]

@[simp] lemma runs_modifyGet {f : σ → α × σ} {s s' : σ} {a : α} :
    Runs (modifyGet f : Action σ α) s a s' ↔ f s = (a, s') := by
  simp [Runs, Prod.ext_iff]

@[simp] lemma runs_modify {f : σ → σ} {s s' : σ} {u : PUnit} :
    Runs (modify f : Action σ PUnit) s u s' ↔ f s = s' := by
  simp [modify]

@[simp] lemma runs_throw {s s' : σ} {a : α} : ¬ Runs (throw f : Action σ α) s a s' := by
  simp [Runs]

@[simp] lemma runs_fail {s s' : σ} {a : α} : ¬ Runs (fail cause l : Action σ α) s a s' :=
  runs_throw

/-- A guard that refuses. -/
@[simp] lemma runs_refuse {p : Prop} [Decidable p] {rest : Action σ α} {s s' : σ} {a : α} :
    Runs (if p then fail cause l >>= fun _ : PUnit => rest else rest) s a s' ↔
      ¬ p ∧ Runs rest s a s' := by
  split <;> simp [*]

@[simp] lemma runs_within {x : Action σ α} {s s' : σ} {a : α} :
    Runs (x.within name) s a s' ↔ Runs x s a s' := by
  unfold Runs
  rw [outcome_within]
  rcases x.outcome s with ⟨_ | a, s1⟩ <;> simp [Except.mapError]

@[simp] lemma runs_orElseFault {x : Action σ α} {s s' : σ} {a : α} :
    Runs (x.orElseFault f) s a s' ↔ Runs x s a s' := by
  unfold Runs
  rw [outcome_orElseFault]
  rcases x.outcome s with ⟨_ | a, s1⟩ <;> simp [Except.mapError]

@[simp] lemma runs_bracket {enter : Action σ Unit} {leave : σ → σ} {body : Action σ α} {s s' : σ}
    {a : α} :
    Runs (bracket enter leave body) s a s' ↔
      ∃ s1 s2, Runs enter s () s1 ∧ Runs body s1 a s2 ∧ leave s2 = s' := by
  unfold Runs
  rw [outcome_bracket]
  rcases enter.outcome s with ⟨_ | u, s1⟩
  · simp
  · rcases h : body.outcome s1 with ⟨_ | b, s2⟩ <;> simp [h]

/-! ### What every step keeps -/

/-- The step takes a state only to states that `R` relates to it, whether it ends well or not. -/
def Within (R : σ → σ → Prop) (x : Action σ α) : Prop :=
  ∀ s, R s (x.outcome s).2

lemma Within.of_runs {R : σ → σ → Prop} {x : Action σ α} (h : Within R x) {s s' : σ} {a : α}
    (hx : Runs x s a s') : R s s' := by
  have := h s
  rwa [show x.outcome s = (.ok a, s') from hx] at this

section

variable {R : σ → σ → Prop}

lemma within_modifyGet {f : σ → α × σ} (h : ∀ s, R s (f s).2) :
    Within R (modifyGet f : Action σ α) :=
  h

lemma within_modify {f : σ → σ} (h : ∀ s, R s (f s)) : Within R (modify f : Action σ PUnit) :=
  h

/-- After the state has been read, only what follows from this very state matters. -/
lemma within_get_bind {f : σ → Action σ β} (h : ∀ s, R s ((f s).outcome s).2) :
    Within R (get >>= f) := by
  intro s
  rw [outcome_bind]
  exact h s

lemma within_bind [IsTrans σ R] {x : Action σ α} {f : α → Action σ β} (hx : Within R x)
    (hf : ∀ a, Within R (f a)) : Within R (x >>= f) := by
  intro s
  have h1 := hx s
  rw [outcome_bind]
  rcases h : x.outcome s with ⟨_ | a, s1⟩
  · simpa [h] using h1
  · rw [h] at h1
    exact trans_of R h1 (hf a s1)

/-- A guard in front of a step: `x` only if `p`, then the step. -/
lemma within_guard [IsTrans σ R] {p : Prop} [Decidable p] {x : Action σ β} {rest : Action σ α}
    (hx : Within R x) (h : Within R rest) : Within R (if p then x >>= fun _ => rest else rest) := by
  split
  · exact within_bind hx fun _ => h
  · exact h

variable [Std.Refl R]

lemma within_pure (a : α) : Within R (pure a : Action σ α) := fun s => Std.Refl.refl s

lemma within_get : Within R (get : Action σ σ) := fun s => Std.Refl.refl s

lemma within_throw (f : Fault) : Within R (throw f : Action σ α) := fun s => Std.Refl.refl s

lemma within_fail (cause : Cause) (l : Location) : Within R (fail cause l : Action σ α) :=
  within_throw _

lemma within_map [IsTrans σ R] {x : Action σ α} {f : α → β} (hx : Within R x) :
    Within R (f <$> x) := by
  rw [map_eq_pure_bind]
  exact within_bind hx fun a => within_pure _

end

lemma within_within {R : σ → σ → Prop} {x : Action σ α} (h : Within R x) :
    Within R (x.within name) := by
  intro s
  rw [outcome_within]
  exact h s

lemma within_orElseFault {R : σ → σ → Prop} {x : Action σ α} (h : Within R x) :
    Within R (x.orElseFault f) := by
  intro s
  rw [outcome_orElseFault]
  exact h s

end Action

/-! ### Steps of the second walk -/

namespace Resolving

/-- The variable counts as resolved. -/
def done (s : Resolving) (v : VariableDecl) : Resolving :=
  { s with resolved := v.id :: s.resolved }

/-- The variable is under way. -/
def begun (s : Resolving) (v : VariableDecl) : Resolving :=
  { s with resolving := v.id :: s.resolving }

end Resolving

namespace Resolve

open Sema.Action

variable {α : Type} {s s' : Resolving}

lemma outcome_ofCheck (x : Check α) (s : Resolving) :
    (ofCheck x).outcome s =
      ((x.outcome s.toContext).1, { s with toContext := (x.outcome s.toContext).2 }) :=
  rfl

lemma outcome_toCheck (x : Resolve α) (c : Context) :
    (toCheck x).outcome c =
      ((x.outcome { toContext := c }).1, (x.outcome { toContext := c }).2.toContext) :=
  rfl

@[simp] lemma runs_ofCheck {x : Check α} {a : α} :
    Runs (ofCheck x) s a s' ↔ ∃ c, Runs x s.toContext a c ∧ { s with toContext := c } = s' := by
  simp only [Runs, outcome_ofCheck]
  rcases x.outcome s.toContext with ⟨_ | b, c⟩ <;> simp

@[simp] lemma runs_lift {x : Check α} {a : α} : Runs (liftM x : Resolve α) s a s' ↔
      ∃ c, Runs x s.toContext a c ∧ { s with toContext := c } = s' :=
  runs_ofCheck

@[simp] lemma runs_toCheck {x : Resolve α} {c c' : Context} {a : α} :
    Runs (toCheck x) c a c' ↔ ∃ s, Runs x { toContext := c } a s ∧ s.toContext = c' := by
  simp only [Runs, outcome_toCheck]
  rcases x.outcome { toContext := c } with ⟨_ | b, s⟩ <;> simp

lemma within_ofCheck {R : Context → Context → Prop} {x : Check α} (h : Within R x) :
    Within (InvImage R Resolving.toContext) (ofCheck x) :=
  fun s => h s.toContext

lemma within_toCheck {R : Context → Context → Prop} {x : Resolve α}
    (h : Within (InvImage R Resolving.toContext) x) : Within R (toCheck x) :=
  fun c => h { toContext := c }

end Resolve

end Sema
