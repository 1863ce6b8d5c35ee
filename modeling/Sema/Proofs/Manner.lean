import Mathlib.Logic.Function.Iterate
import Sema.Proofs.Run
import Sema.Typing.Declaration

/-!
The second walk in another manner. To say what is true whenever a variable or an expression is
resolved, something is done there that the program does not do, and the walk is shown to be the
same.
-/

namespace Sema

/-! ### Steps that do the same -/

namespace Action

variable {σ α β : Type} {s : σ} {x y : Action σ α} {P Q : α → σ → Prop}

/-- From `s`, `y` does what `x` does, and if this ends well then `Q` holds. -/
structure Follows (x y : Action σ α) (s : σ) (Q : α → σ → Prop) : Prop where
  same : y.outcome s = x.outcome s
  value : ∀ a s', Runs x s a s' → Q a s'

namespace Follows

lemma of_runs (h : ∀ a s', Runs x s a s' → Q a s') : Follows x x s Q :=
  ⟨rfl, h⟩

lemma of_same (h : y.outcome s = x.outcome s) : Follows x y s fun _ _ => True :=
  ⟨h, fun _ _ _ => trivial⟩

lemma pure {a : α} (h : Q a s) : Follows (pure a) (pure a) s Q :=
  of_runs fun b s' hr => by
    obtain ⟨rfl, rfl⟩ := runs_pure.mp hr
    exact h

lemma imp (h : Follows x y s P) (hPQ : ∀ a s', P a s' → Q a s') : Follows x y s Q :=
  ⟨h.same, fun a s' hr => hPQ a s' (h.value a s' hr)⟩

lemma bind {f g : α → Action σ β} {Q : β → σ → Prop} (h : Follows x y s P)
    (hf : ∀ a s1, P a s1 → Follows (f a) (g a) s1 Q) : Follows (x >>= f) (y >>= g) s Q := by
  refine ⟨?_, fun b s' hr => ?_⟩
  · rw [outcome_bind, outcome_bind, h.same]
    rcases hx : x.outcome s with ⟨_ | a, s1⟩
    · rfl
    · exact (hf a s1 (h.value a s1 hx)).same
  · obtain ⟨a, s1, hx, hr⟩ := runs_bind.mp hr
    exact (hf a s1 (h.value a s1 hx)).value b s' hr

lemma get_bind {f g : σ → Action σ α} (h : Follows (f s) (g s) s Q) :
    Follows (get >>= f) (get >>= g) s Q :=
  bind (P := fun a s1 => s = a ∧ s = s1) (of_runs fun _ _ => runs_get.mp) fun _ _ hs => by
    obtain ⟨rfl, rfl⟩ := hs
    exact h

lemma within {name : String} (h : Follows x y s Q) : Follows (x.within name) (y.within name) s Q :=
  ⟨by rw [outcome_within, outcome_within, h.same], fun a s' hr => h.value a s' (runs_within.mp hr)⟩

lemma bracket {enter : Action σ Unit} {leave : σ → σ}
    (h : ∀ s1, Runs enter s () s1 → Follows x y s1 fun a s2 => Q a (leave s2)) :
    Follows (bracket enter leave x) (bracket enter leave y) s Q := by
  refine ⟨?_, fun a s' hr => ?_⟩
  · rw [outcome_bracket, outcome_bracket]
    rcases he : enter.outcome s with ⟨_ | _, s1⟩
    · rfl
    · dsimp only
      rw [(h s1 he).same]
  · obtain ⟨s1, s2, he, hx, rfl⟩ := runs_bracket.mp hr
    exact (h s1 he).value a s2 hx

end Follows

end Action

/-- Nothing is left to do for the variable, or someone is at it already. -/
def Resolving.Taken (s : Resolving) (n : NodeId) : Prop :=
  n ∈ s.resolved ∨ n ∈ s.resolving

instance (s : Resolving) (n : NodeId) : Decidable (s.Taken n) :=
  inferInstanceAs (Decidable (_ ∨ _))

namespace Resolve

open Sema.Action

variable {α β : Type} {x : Check α} {s : Resolving}

lemma follows_check {Q : α → Resolving → Prop}
    (h : ∀ a c, Runs x s.toContext a c → Q a { s with toContext := c }) :
    Follows (liftM x : Resolve α) (liftM x) s Q :=
  .of_runs fun a s' hr => by
    obtain ⟨c, hx, rfl⟩ := runs_lift.mp hr
    exact h a c hx

lemma follows_check_bind {f g : α → Resolve β} {Q : β → Resolving → Prop}
    (h : ∀ a c, Runs x s.toContext a c → Follows (f a) (g a) { s with toContext := c } Q) :
    Follows (liftM x >>= f) (liftM x >>= g) s Q :=
  .bind (follows_check (Q := fun a s1 => Follows (f a) (g a) s1 Q) h) fun _ _ h => h

/-- A step that is left out for a variable that is taken. -/
lemma outcome_unlessTaken (n : NodeId) (x : Resolve Unit) (s : Resolving) :
    (isTaken n >>= fun taken => if taken then pure () else x).outcome s =
      if s.Taken n then (.ok (), s) else x.outcome s := by
  have htaken : (isTaken n).outcome s = (.ok (decide (s.Taken n)), s) := by
    refine congrArg (fun taken => (Except.ok taken, s)) (Bool.eq_iff_iff.mpr ?_)
    rw [decide_eq_true_iff]
    simp [Resolving.Taken]
  rw [outcome_bind, htaken]
  by_cases hn : s.Taken n <;> simp [hn]

lemma same_unlessTaken {n : NodeId} {x y : Resolve Unit}
    (h : ¬ s.Taken n → y.outcome s = x.outcome s) :
    (isTaken n >>= fun taken => if taken then pure () else y).outcome s =
      (isTaken n >>= fun taken => if taken then pure () else x).outcome s := by
  rw [outcome_unlessTaken, outcome_unlessTaken]
  split
  · rfl
  · next hn => exact h hn

/-! ### Expressions -/

section

variable (g : Expr → Resolve Slot → Resolve Slot) (plan : Plan) (demand : NodeId → Resolve Unit)

mutual

/-- Expressions, with something done around each part. -/
def exprBy : Expr → Resolve Slot
  | .call node callee arguments => do
    let (s, isType) ← operandOrType callee (g callee (exprBy callee))
    match ← callParameters node callee arguments.length s isType with
    | none => Check.bind node.id s
    | some parameters =>
      callArgumentsBy (calleeName callee) 0 arguments parameters
      Check.bind node.id ((← get).types.valueOf s)
  | .binary node op left right => do
    let l ← g left (exprBy left)
    let r ← if op = .is then (·.1) <$> operandOrType right (g right (exprBy right))
      else g right (exprBy right)
    binaryRule node op left right l r
  | .unary node op operand => do
    let s ← g operand (exprBy operand)
    unaryRule node op operand s
  | .member node object name => do
    let (s, isType) ← operandOrType object (g object (exprBy object))
    if isType then itemRule node name s else memberRule plan demand node object name s
  | .index node array position => do
    let a ← g array (exprBy array)
    let p ← g position (exprBy position)
    indexRule node array position a p
  | .assign node target value => do
    if !target.isAssignable then fail .invalidTarget target.node.location
    let t ← g target (exprBy target)
    let v ← g value (exprBy value)
    assignRule node value t v
  | .array node elements => do
    let slots ← exprsBy elements
    arrayRule node elements slots
  | .record node fields => do
    let slots ← fieldValuesBy fields
    Check.setShape node.id (.record (← get).currentOrRoot slots)
  -- the others have no parts
  | e => expr plan demand e

def exprsBy : List Expr → Resolve (List Slot)
  | [] => pure []
  | e :: rest => do
    let s ← g e (exprBy e)
    return s :: (← exprsBy rest)

def fieldValuesBy : List FieldValue → Resolve (List (String × Slot))
  | [] => pure []
  | ⟨_, name, value⟩ :: rest => do
    let s ← g value (exprBy value)
    return (name.name, s) :: (← fieldValuesBy rest)

def callArgumentsBy (callee : String) (i : Nat) :
    List Expr → List (String × Slot) → Resolve Unit
  | argument :: arguments, (parameter, expected) :: parameters => do
    let found ← g argument (exprBy argument)
    checkAssignable expected argument found (.argument callee parameter i)
    callArgumentsBy callee (i + 1) arguments parameters
  | _, _ => pure ()

end

end

/-! ### Variables and demands -/

/-- What is done around a variable that is resolved, and how expressions are resolved if it is known
how demands are answered: the initial value of a variable, and the expressions of statements. -/
structure Manner where
  around : NodeId → Resolve Unit → Resolve Unit := whileResolving
  initial : NodeId → Plan → (NodeId → Resolve Unit) → Expr → Resolve Slot := fun _ => expr
  value : Plan → (NodeId → Resolve Unit) → Expr → Resolve Slot := expr

/-- The manner of the program. -/
abbrev Manner.usual : Manner := {}

/-- The type of a variable, with another way to resolve its initial value. -/
def variableTypeBy (initial : Expr → Resolve Slot) (v : VariableDecl) : Resolve Unit := do
  let s ← Check.slotOf v.id
  match v.type, v.value with
  | some type, value =>
    let declared ← TypeExpr.resolve .strict type
    Check.assign s declared
    match value with
    | some e =>
      let found ← initial e
      checkAssignable s e found .definition
    | none => pure ()
  | none, some e =>
    let found ← initial e
    if ((← get).types.get found).isVoid then fail .voidAssignment e.node.location
    Check.assign s found
  | none, none => fail (.untypedVariable v.name.name) v.location

def variableTypeIn (m : Manner) (plan : Plan) (demand : NodeId → Resolve Unit) (v : VariableDecl) :
    Resolve Unit :=
  m.around v.id (variableTypeBy (m.initial v.id plan demand) v)

/-- The rule for variables. -/
def variableDeclBy (m : Manner) (plan : Plan) (demand : NodeId → Resolve Unit) (v : VariableDecl) :
    Resolve Unit := do
  if ← isTaken v.id then return
  variableTypeIn m plan demand v
  modify fun s => { s with resolved := v.id :: s.resolved }
  if (← get).currentKind? = some .body then
    Check.declare v.name.name .value v.id v.location

/-- One demand, if the demands inside it are answered by `demand`. -/
def demandStep (m : Manner) (plan : Plan) (demand : NodeId → Resolve Unit) (n : NodeId) :
    Resolve Unit := do
  match plan.pending.get? n with
  | none => pure ()
  | some pending =>
    if ← isTaken n then return
    let c ← get
    match c.scopeOf? pending.owner with
    | none => pure ()
    | some scope =>
      withStack (c.around scope)
        ((variableDeclBy m plan demand pending.decl).within pending.decl.name.name)

def demandBy (m : Manner) (plan : Plan) : NodeId → Resolve Unit :=
  (demandStep m plan)^[plan.size] fun _ => pure ()

/-- Expressions and variables, in turn and on demand. -/
def Rules.of (m : Manner) (plan : Plan) : Rules :=
  ⟨m.value plan (demandBy m plan), variableDeclBy m plan (demandBy m plan)⟩

lemma iterate_demandStep_usual (plan : Plan) (depth : Nat) :
    (demandStep .usual plan)^[depth] (fun _ => pure ()) = demandWithin plan depth := by
  induction depth with
  | zero => rfl
  | succ depth ih =>
    rw [Function.iterate_succ_apply', ih]
    rfl

/-- The second walk in some manner. -/
def programBy (m : Manner) (mode : ScopeMode) (p : Program) : Check Unit := do
  let plan ← Plan.addDecls {} p.id p.declarations
  toCheck (walk mode (.of m plan) p)

end Resolve

end Sema
