import Sema.Proofs.Complaints
import Sema.Proofs.SecondWalk

/-!
An analysis of a program fails only for what is wrong with the program. In a fresh context the first
walk makes all scopes that the second one opens, and after the second walk every node of the program
has a type, so that the checks at the end find one wherever they look.
-/

namespace Sema

open Sema.Action

variable {a : Analysis} {f : Fault} {p : Program}

namespace Action

variable {σ α β : Type} {s : σ} {f : Fault}

/-- The step ends in the fault. -/
def Fails (x : Action σ α) (s : σ) (f : Fault) : Prop :=
  (x.outcome s).1 = .error f

lemma fails_bind {x : Action σ α} {g : α → Action σ β} :
    Fails (x >>= g) s f ↔ Fails x s f ∨ ∃ a s1, Runs x s a s1 ∧ Fails (g a) s1 f := by
  simp only [Fails, Runs, outcome_bind]
  rcases x.outcome s with ⟨_ | a, s1⟩ <;> simp

lemma fails_pure {a : α} : ¬ Fails (pure a : Action σ α) s f := by
  simp [Fails]

lemma fails_get : ¬ Fails (get : Action σ σ) s f := by
  simp [Fails]

lemma fails_set {t : σ} : ¬ Fails (set t : Action σ PUnit) s f := by
  simp [Fails]

lemma fails_modify {g : σ → σ} : ¬ Fails (modify g : Action σ PUnit) s f := by
  simp [Fails]

/-- A step that ensures something fails for one of the causes. -/
lemma Ensures.of_fails {R : σ → σ → Prop} {E : Cause → Prop} {x : [Access] → Action σ α}
    {Q : α → σ → Prop} (hx : Ensures R E x s Q) (h : Fails x s f) : E f.cause :=
  hx.fault f _ (Prod.ext h rfl)

end Action

lemma Pass.fails_onContext {x : Program → Check Unit} :
    Fails (onContext x) a f ↔ Fails (x a.program) a.context f :=
  Iff.rfl

lemma Pass.fails_liftExcept {α : Type} {x : Except Fault α} :
    Fails (run.liftExcept x) a f ↔ x = .error f :=
  Iff.rfl

/-- What a rejected program went through: it was rearranged, collected and resolved, and then
checked, up to where the fault is. -/
inductive Analysis.Rejects (p : Program) (f : Fault) : Prop
  | arrange (h : p.hoist.withEntryPoint = .error f)
  | collect {p' : Program} (harranged : p.hoist.withEntryPoint = .ok p')
    (h : Fails (Collect.program .fresh p') {} f)
  | resolve {p' : Program} {c1 : Context} (harranged : p.hoist.withEntryPoint = .ok p')
    (hcollect : Runs (Collect.program .fresh p') {} () c1)
    (h : Fails (Resolve.program .reopen p') c1 f)
  | check {p' : Program} {c1 c2 : Context} (harranged : p.hoist.withEntryPoint = .ok p')
    (hcollect : Runs (Collect.program .fresh p') {} () c1)
    (hresolve : Runs (Resolve.program .reopen p') c1 () c2)
    (h : p'.checkComplete c2 = .error f ∨ p'.checkNulls c2 = .error f)

lemma Analysis.rejects_of_standard (h : Analysis.standard p = .error f) : Analysis.Rejects p f := by
  have hfails : Fails (Pass.runAll Pass.standard) { program := p } f := by
    unfold standard run at h
    split at h
    · cases h
    · next heq =>
      cases h
      exact congrArg Prod.fst heq
  simp only [Pass.standard, Pass.runAll, Pass.run, fails_bind, fails_modify, fails_get, fails_set,
    fails_pure, Pass.fails_onContext, Pass.fails_liftExcept, runs_bind, runs_modify, runs_get,
    runs_set, Pass.runs_onContext, Pass.runs_liftExcept, false_or, or_false, and_false,
    exists_false] at hfails
  obtain ⟨_, _, rfl,
    ⟨_, _, ⟨rfl, rfl⟩, h⟩ | ⟨_, _, ⟨_, _, ⟨rfl, rfl⟩, p', _, ⟨hp', rfl⟩, rfl⟩, h⟩⟩ :=
    hfails
  · exact .arrange h
  obtain h | ⟨_, _, ⟨c1, hc1, rfl⟩, h⟩ := h
  · exact .collect hp' h
  obtain h | ⟨_, _, ⟨c2, hc2, rfl⟩, h⟩ := h
  · exact .resolve hp' hc1 h
  obtain ⟨_, _, ⟨rfl, rfl⟩, h⟩ | ⟨_, _, ⟨_, _, ⟨rfl, rfl⟩, -, rfl⟩, _, _, ⟨rfl, rfl⟩, h⟩ := h
  · exact .check hp' hc1 hc2 (.inl h)
  · exact .check hp' hc1 hc2 (.inr h)

lemma Program.withEntryPoint_fault {E : Cause → Prop} [Cause.Regular E]
    (h : p.withEntryPoint = .error f) : E f.cause := by
  unfold withEntryPoint at h
  split at h
  · cases h
  · cases h
    exact Cause.Regular.ordinary rfl
  · cases h

/-- **Every node has a type** when the second walk is over. -/
lemma Resolve.typed_nodes {p' : Program} {c1 c2 : Context} (hp : p.FullyNumbered)
    (harranged : p.hoist.withEntryPoint = .ok p')
    (hcollect : Runs (Collect.program .fresh p') {} () c1)
    (hresolve : Runs (Resolve.program .reopen p') c1 () c2) : c2.Typed p'.nodes := by
  rw [Program.nodes, Program.statements_withEntryPoint harranged, Stmt.nodesAll, List.append_nil]
  exact ((exact_program (hp.hoist.withEntryPoint harranged) hcollect False.elim).value
    _ _ hresolve).1

namespace Analysis

variable {p : Program}

lemma Rejects.ordinary {f : Fault} (h : Rejects p f) (hp : p.FullyNumbered) : f.cause.Ordinary := by
  cases h with
  | arrange h => exact Program.withEntryPoint_fault h
  | collect _ h => exact (Collect.ensures_program .empty _ (.inr rfl)).of_fails h
  | resolve harranged hcollect h =>
    exact ((Resolve.exact_program (hp.hoist.withEntryPoint harranged) hcollect
      False.elim).of_fails h).1
  | check harranged hcollect hresolve h =>
    exact Program.check_fault (Resolve.typed_nodes hp harranged hcollect hresolve) h

/-- **An analysis never fails on its own account.** Whatever an analysis of a program complains
about, it is not a scope that is missing, not a return outside of every function, and not a node
without a type. For, the first walk makes the scopes of the program and of every class, function and
enum in it; and after the second walk every function has the type of a function, and every node of
the program has a type. -/
theorem internal_faults_unreachable (hp : p.FullyNumbered) :
    (∀ f, Analysis.standard p = .error f → (∀ n, f.cause ≠ .scopeNotFound n) ∧
      f.cause ≠ .returnOutsideFunction ∧ ∀ what, f.cause ≠ .incomplete what "<untyped>") ∧
    ∀ p' c1, p.hoist.withEntryPoint = .ok p' → Runs (Collect.program .fresh p') {} () c1 →
      c1.scopeOf? p'.id ≠ none ∧ c1.Houses p'.allDecls ∧
      ∀ c2, Runs (Resolve.program .reopen p') c1 () c2 →
        (∀ f, .function f ∈ p'.allDecls → ∃ r ps, c2.shape? f.id = some (.function r ps)) ∧
        c2.Typed p'.nodes := by
  refine ⟨fun f h => ?_, fun p' c1 harranged hcollect => ?_⟩
  · have hordinary := (rejects_of_standard h).ordinary hp
    refine ⟨fun n hcause => ?_, fun hcause => ?_, fun what hcause => ?_⟩ <;>
      rw [hcause] at hordinary <;> cases hordinary
  have hnum : p'.FullyNumbered := hp.hoist.withEntryPoint harranged
  obtain ⟨hroot, hhouses⟩ := (Collect.ensures_program (E := Cause.Ordinary) .empty p'
    (.inr rfl)).value _ _ hcollect (by simp)
  refine ⟨hroot, hhouses, fun c2 hresolve => ⟨fun f hf => ?_, ?_⟩⟩
  · obtain ⟨plan, s, s', hstarts, -, hdecls, rfl⟩ :=
      Resolve.starts_of_program hnum hcollect hresolve
    have hfooting : Resolving.Footing (hstarts.groundwork hnum.toNumbered) s' :=
      (hstarts.walked hnum.toNumbered (fun _ => hstarts.named) hdecls).advances.footing
    obtain ⟨r, hr⟩ := hstarts.returns hnum.toNumbered hf
    exact ⟨r, hfooting.shape?_function trivial hr⟩
  · exact Resolve.typed_nodes hp harranged hcollect hresolve

/-- A function and a method that return from blocks, a variable with a value, an enum, and a list
whose elements have no type. -/
def looseList : Program :=
  (StateT.run (m := Id) (do
    let b ← Draft.parameter "b" (← Draft.namedType "Bool" [])
    let one ← Draft.returnStmt (some (← Draft.literal (.integer "1")))
    let branch ← Draft.ifStmt (← Draft.identifier "b") [one] none
    let two ← Draft.returnStmt (some (← Draft.identifier "x"))
    let f ← Draft.functionDecl "f" [b] (some (← Draft.namedType "Int" [])) [branch, two]
    let x ← Draft.variableDecl "x" none (some (← Draft.literal (.integer "3")))
    let back ← Draft.returnStmt none
    let m ← Draft.functionDecl "m" [] none [← Draft.blockStmt [back]]
    let o ← Draft.classDecl "O" none [.var x, .function m, .function f]
    let e ← Draft.enumDecl "E" [← Draft.enumItem "A" []]
    let list ← Draft.expressionStmt (← Draft.array [← Draft.literal .null])
    Draft.program [.object o, .enum e] [list]) {}).1

/-- Why a program is rejected. -/
def complaint? (p : Program) : Option Cause :=
  match Analysis.standard p with
  | .error f => some f.cause
  | .ok _ => none

lemma exists_of_complaint? {cause : Cause} (h : complaint? p = some cause) :
    ∃ f, Analysis.standard p = .error f ∧ f.cause = cause := by
  revert h
  unfold complaint?
  rcases Analysis.standard p with f | a
  · exact fun h => ⟨f, rfl, Option.some.inj h⟩
  · intro h
    cases h

/-- A run of both walks on a fixed program that can be evaluated. -/
lemma exists_runs
    (h : (Analysis.run [.hoist, .entryPoint, .collect .fresh, .resolve .reopen] p).isOk = true) :
    ∃ p' c1 c2, p.hoist.withEntryPoint = .ok p' ∧ Runs (Collect.program .fresh p') {} () c1 ∧
      Runs (Resolve.program .reopen p') c1 () c2 := by
  have hrun : ∃ a, Runs (Pass.runAll [.hoist, .entryPoint, .collect .fresh, .resolve .reopen])
      { program := p } () a := by
    unfold run at h
    split at h
    · next heq => exact ⟨_, heq⟩
    · cases h
  simp only [Pass.runAll, Pass.run, runs_bind, runs_modify, runs_get, runs_set, runs_pure,
    Pass.runs_onContext, Pass.runs_liftExcept] at hrun
  obtain ⟨_, _, _, rfl, _, _, ⟨_, _, ⟨rfl, rfl⟩, p', _, ⟨hp', rfl⟩, rfl⟩, _, _,
    ⟨c1, hc1, rfl⟩, _, _,
    ⟨c2, hc2, rfl⟩, -⟩ := hrun
  exact ⟨p', c1, c2, hp', hc1, hc2⟩

theorem internal_faults_unreachable_looseList :
    looseList.FullyNumbered ∧
    (∃ f, Analysis.standard looseList = .error f ∧
      f.cause = .incomplete "array literal" "Array<<deferred>>" ∧
      (∀ n, f.cause ≠ .scopeNotFound n) ∧ f.cause ≠ .returnOutsideFunction ∧
      ∀ what, f.cause ≠ .incomplete what "<untyped>") ∧
    ∃ p' c1 c2, looseList.hoist.withEntryPoint = .ok p' ∧
      Runs (Collect.program .fresh p') {} () c1 ∧ Runs (Resolve.program .reopen p') c1 () c2 ∧
      c1.Houses p'.allDecls ∧ c2.Typed p'.nodes := by
  have hp : looseList.FullyNumbered :=
    ⟨⟨by decide +kernel, by decide +kernel⟩, by decide +kernel, by decide +kernel⟩
  have hcause : complaint? looseList = some (.incomplete "array literal" "Array<<deferred>>") := by
    decide +kernel
  obtain ⟨hfaults, hruns⟩ := internal_faults_unreachable hp
  refine ⟨hp, ?_, ?_⟩
  · revert hcause hfaults
    unfold complaint?
    rcases Analysis.standard looseList with f | a
    · exact fun hcause hfaults => ⟨f, rfl, Option.some.inj hcause, hfaults f rfl⟩
    · intro hcause
      cases hcause
  · obtain ⟨p', c1, c2, harranged, hcollect, hresolve⟩ := exists_runs (p := looseList)
      (by decide +kernel)
    obtain ⟨-, hhouses, htyped⟩ := hruns p' c1 harranged hcollect
    exact ⟨p', c1, c2, harranged, hcollect, hresolve, hhouses, (htyped c2 hresolve).2⟩

end Analysis

end Sema
