import Sema.Proofs.Run

/-!
What a step ensures, from one state on: where it comes to, whether it ends well or in a fault, what
holds of its value if it ends well, and which faults it may end in. All that it reads and changes is
there: an access beyond the end of an array could come to anything, and it would make no difference.
A sequence of steps ensures what its steps ensure one after the other.

A fault is raised for what is wrong with a program. Only functions that deal with scopes and with
returns, and the check for completeness, could also fail because the analysis is not in the state
that they expect.
-/

namespace Sema

namespace Action

variable {σ α β : Type} {R : σ → σ → Prop} {E : Cause → Prop} {s s' : σ}

/-- From the state `s` the step comes to a state that `R` allows. If it ends well, its value and the
state satisfy `Q`, and otherwise the cause of its fault satisfies `E`. What an access beyond the end
of an array comes to makes no difference. -/
structure Ensures (R : σ → σ → Prop) (E : Cause → Prop) (x : [Access] → Action σ α) (s : σ)
    (Q : α → σ → Prop) : Prop where
  state : R s (x.outcome s).2
  value : ∀ a s', Runs x s a s' → Q a s'
  fault : ∀ f s', x.outcome s = (.error f, s') → E f.cause
  steady : ∀ A : Access, (@x A).outcome s = (@x .usual).outcome s

namespace Ensures

variable {x y : [Access] → Action σ α} {f : [Access] → α → Action σ β} {Q Q' : α → σ → Prop}
  {P : β → σ → Prop}

/-- A step that ends well. -/
lemma of_runs {a : α} (hx : ∀ A : Access, Runs (@x A) s a s') (h : R s s') (hq : Q a s') :
    Ensures R E x s Q := by
  have hout : ∀ A : Access, (@x A).outcome s = (.ok a, s') := hx
  refine ⟨by rwa [hout], fun b s1 hb => ?_, fun f s1 hf => ?_, fun A => by rw [hout, hout]⟩
  · have hb : x.outcome s = (.ok b, s1) := hb
    rw [hout] at hb
    cases hb
    exact hq
  · rw [hout] at hf
    cases hf

/-- A step that ends in a fault. -/
lemma of_fault {f : Fault} (hx : ∀ A : Access, (@x A).outcome s = (.error f, s')) (h : R s s')
    (he : E f.cause) : Ensures R E x s Q := by
  refine ⟨by rwa [hx], fun a s1 ha => ?_, fun f' s1 hf => ?_, fun A => by rw [hx, hx]⟩
  · have ha : x.outcome s = (.ok a, s1) := ha
    rw [hx] at ha
    cases ha
  · rw [hx] at hf
    cases hf
    exact he

/-- A step that goes on as another one does, maybe from another state. -/
lemma of_outcome {s1 : σ} (hout : ∀ A : Access, (@y A).outcome s = (@x A).outcome s1)
    (hx : Ensures R E x s1 Q) (hR : ∀ s', R s1 s' → R s s') : Ensures R E y s Q := by
  refine ⟨?_, fun a s' hr => hx.value a s' ?_, fun f s' hf => hx.fault f s' (hout _ ▸ hf),
    fun A => by rw [hout, hout, hx.steady A]⟩
  · rw [hout]
    exact hR _ hx.state
  · rwa [Runs, ← hout]

lemma pure {a : α} (h : R s s) (hq : Q a s) : Ensures R E (Pure.pure a) s Q :=
  .of_runs (fun _ => rfl) h hq

lemma throw {f : Fault} (h : R s s) (he : E f.cause) : Ensures R E (MonadExcept.throw f) s Q :=
  .of_fault (fun _ => rfl) h he

lemma fail {cause : Cause} {l : Location} (h : R s s) (he : E cause) :
    Ensures R E (Sema.fail cause l) s Q :=
  .throw h he

/-- The state that a step comes to when it ends well. -/
lemma of_value {a : α} (hx : Ensures R E x s Q) (h : Runs x s a s') : R s s' := by
  have hstate := hx.state
  rwa [show x.outcome s = (.ok a, s') from h] at hstate

/-- The run itself, next to what it ensures. -/
lemma runs (hx : Ensures R E x s Q) : Ensures R E x s fun a s' => Runs x s a s' ∧ Q a s' :=
  { hx with value := fun a s' h => ⟨h, hx.value a s' h⟩ }

/-- **One step after the other.** -/
lemma bind [IsTrans σ R] (hx : Ensures R E x s Q)
    (hf : ∀ a s1, R s s1 → Q a s1 → Ensures R E (f a) s1 P) : Ensures R E (x >>= f) s P := by
  rcases h : x.outcome s with ⟨e | a, s1⟩
  · refine .of_fault (fun A => ?_) (by simpa [h] using hx.state) (hx.fault _ _ h)
    rw [outcome_bind, hx.steady A, h]
  · have hstate : R s s1 := hx.of_value h
    refine .of_outcome (fun A => ?_) (hf a s1 hstate (hx.value a s1 h))
      fun s' h' => trans_of R hstate h'
    rw [outcome_bind, hx.steady A, h]

lemma map {g : α → β} (hx : Ensures R E x s Q) (hq : ∀ a s', Q a s' → P (g a) s') :
    Ensures R E (g <$> x) s P := by
  rcases h : x.outcome s with ⟨e | a, s1⟩
  · refine .of_fault (fun A => ?_) (by simpa [h] using hx.state) (hx.fault _ _ h)
    rw [outcome_map, hx.steady A, h]
    rfl
  · refine .of_runs (fun A => ?_) (hx.of_value h) (hq a s1 (hx.value a s1 h))
    exact runs_map.mpr ⟨a, (hx.steady A).trans h, rfl⟩

lemma weaken {E' : Cause → Prop} (hx : Ensures R E x s Q) (he : ∀ cause, E cause → E' cause)
    (hq : ∀ a s', R s s' → Q a s' → Q' a s') : Ensures R E' x s Q' :=
  ⟨hx.state, fun a s' h => hq a s' (hx.of_value h) (hx.value a s' h),
    fun f s' h => he _ (hx.fault f s' h), hx.steady⟩

lemma imp (hx : Ensures R E x s Q) (hq : ∀ a s', R s s' → Q a s' → Q' a s') :
    Ensures R E x s Q' :=
  hx.weaken (fun _ h => h) hq

/-- Reading the state. -/
lemma get_bind {f : [Access] → σ → Action σ β} (h : Ensures R E (f s) s P) :
    Ensures R E (get >>= f) s P :=
  .of_outcome (fun _ => by rw [outcome_bind, outcome_get]) h fun _ h' => h'

/-- A refusal in front of a step. -/
lemma refuse {p : Prop} [Decidable p] {cause : Cause} {l : Location}
    {rest : [Access] → Action σ α} (h : R s s) (he : E cause)
    (hrest : ¬ p → Ensures R E rest s Q) :
    Ensures R E
      (if p then (Sema.fail cause l : Action σ PUnit) >>= fun _ => rest else rest) s Q := by
  split
  · exact .of_fault (fun _ => by rw [outcome_bind, outcome_fail]) h he
  · next hp => exact hrest hp

lemma within {name : String} (hx : Ensures R E x s Q) : Ensures R E (x.within name) s Q := by
  rcases h : x.outcome s with ⟨e | a, s1⟩
  · refine .of_fault (f := e.within name) (fun A => ?_) (by simpa [h] using hx.state)
      (hx.fault e _ h)
    rw [outcome_within, hx.steady A, h]
    rfl
  · exact .of_runs (fun A => runs_within.mpr ((hx.steady A).trans h)) (hx.of_value h)
      (hx.value a s1 h)

/-- Whatever the fault was, it is replaced. -/
lemma orElseFault {E' : Cause → Prop} {f : Fault} (hx : Ensures R E' x s Q) (he : E f.cause) :
    Ensures R E (x.orElseFault f) s Q := by
  rcases h : x.outcome s with ⟨e | a, s1⟩
  · refine .of_fault (fun A => ?_) (by simpa [h] using hx.state) he
    rw [outcome_orElseFault, hx.steady A, h]
    rfl
  · exact .of_runs (fun A => runs_orElseFault.mpr ((hx.steady A).trans h)) (hx.of_value h)
      (hx.value a s1 h)

/-- **Entering, a body, and leaving.** Wherever the body ends, one can leave. -/
lemma bracket [IsTrans σ R] {enter : [Access] → Action σ Unit} {leave : σ → σ}
    {T : Unit → σ → Prop} (henter : Ensures R E enter s T)
    (hx : ∀ s1, R s s1 → T () s1 → Ensures R E x s1 Q) (hleave : ∀ s2, R s s2 → R s2 (leave s2))
    (hq : ∀ a s2, R s s2 → Q a s2 → Q' a (leave s2)) :
    Ensures R E (Action.bracket enter leave x) s Q' := by
  rcases h : enter.outcome s with ⟨e | u, s1⟩
  · refine .of_fault (fun A => ?_) (by simpa [h] using henter.state) (henter.fault _ _ h)
    rw [outcome_bracket, henter.steady A, h]
  · have hstate : R s s1 := henter.of_value h
    have hbody := hx s1 hstate (henter.value u s1 h)
    have hstate2 : R s (x.outcome s1).2 := trans_of R hstate hbody.state
    rcases h2 : x.outcome s1 with ⟨r, s2⟩
    have hout : ∀ A : Access,
        (Action.bracket (@enter A) leave (@x A)).outcome s = (r, leave s2) := fun A => by
      rw [outcome_bracket, henter.steady A, h]
      simp only [hbody.steady A, h2]
    rw [h2] at hstate2
    have hleft := trans_of R hstate2 (hleave _ hstate2)
    rcases r with e | b
    · exact .of_fault hout hleft (hbody.fault _ _ h2)
    · exact .of_runs hout hleft (hq b s2 hstate2 (hbody.value _ _ h2))

end Ensures

end Action

namespace Check

open Sema.Action

variable {R : Context → Context → Prop} {E : Cause → Prop} {c : Context} {β : Type}
  {Q : β → Context → Prop}

lemma ensures_types {f : [Access] → TypeStore → Check β} (h : Ensures R E (f c.types) c Q) :
    Ensures R E (types >>= f) c Q :=
  .of_outcome (fun _ => by rw [outcome_bind]; rfl) h fun _ h' => h'

lemma ensures_display {x : Slot} {f : [Access] → String → Check β}
    (h : Ensures R E (f (c.types.display x)) c Q) : Ensures R E (display x >>= f) c Q :=
  .of_outcome (fun _ => by rw [outcome_bind]; rfl) h fun _ h' => h'

end Check

/-! ### Causes -/

namespace Cause

/-- A fault that would say something about the analysis and not about the program: a scope that
was not opened, a return that belongs to no function, a node without a type. -/
def isInternal : Cause → Bool
  | scopeNotFound _ | returnOutsideFunction => true
  | incomplete _ found => found = "<untyped>"
  | _ => false

/-- Causes of faults of which a program may be guilty. -/
def Ordinary (cause : Cause) : Prop :=
  cause.isInternal = false

/-- The one fault that no single place of a program is to blame for: a class that comes before
itself in the hierarchy. -/
def isCyclic : Cause → Bool
  | cyclicInheritance _ => true
  | _ => false

/-- The fault of declaring a name that is taken. -/
def isRedeclared : Cause → Bool
  | redeclared _ _ => true
  | _ => false

/-- All that can be wrong at one place of a program is among the causes, apart from the names that
are declared there. -/
class Regular (E : Cause → Prop) : Prop where
  ordinary {cause : Cause} :
    (cause.isInternal || cause.isCyclic || cause.isRedeclared) = false → E cause

/-- All that can be wrong at one place of a program is among the causes. -/
class Permitted (E : Cause → Prop) : Prop extends Regular E where
  redeclared (name : String) (kind : SymbolKind) : E (.redeclared name kind)

instance : Permitted Ordinary where
  ordinary h := by
    simp only [Bool.or_eq_false_iff] at h
    exact h.1.1
  redeclared _ _ := rfl

instance : Permitted fun cause => cause.isCyclic = false where
  ordinary h := by
    simp only [Bool.or_eq_false_iff] at h
    exact h.1.2
  redeclared _ _ := rfl

instance : Permitted fun _ => True where
  ordinary _ := trivial
  redeclared _ _ := trivial

end Cause

end Sema
