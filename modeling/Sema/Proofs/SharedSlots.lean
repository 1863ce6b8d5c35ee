import Sema.Proofs.OpenScopes
import Sema.Proofs.WellFormed
import Sema.Syntax.Draft

/-!
Nodes that share a slot. Whatever is done to a context, by single operations or by passes in any
mode and order, a node keeps the slot that it once got and no slot goes away. Two nodes that share a
slot thus share it from then on, and what becomes of the one's type becomes of the other's.

Nothing is asked of the context to begin with or of the handles that operations are given, and
nothing of how operations and passes end: what they changed before a fault stays changed.
-/

namespace Sema

open Sema.Action Context

namespace Context

/-- No slot has gone away, and every node that had a slot still has it. -/
structure Retains (c c' : Context) : Prop where
  size_le : c.types.size ≤ c'.types.size
  nodeType : ∀ n x, c.nodeType? n = some x → c'.nodeType? n = some x

namespace Retains

variable {c c1 c' : Context}

lemma refl (c : Context) : c.Retains c :=
  ⟨le_rfl, fun _ _ h => h⟩

lemma trans (h : c.Retains c1) (h' : c1.Retains c') : c.Retains c' :=
  ⟨h.size_le.trans h'.size_le, fun n x hx => h'.nodeType n x (h.nodeType n x hx)⟩

lemma of_grows {P : Shape → Prop} (h : Grows P c c') : c.Retains c' :=
  ⟨h.size_le, h.nodeType⟩

lemma of_onward (h : c.Onward c') : c.Retains c' :=
  ⟨h.size_le, h.nodeType⟩

end Retains

variable {c : Context} {n m : NodeId} {x : Slot}

/-- A type that is stored for a node is seen through every node that shares its slot, -/
lemma shape?_setShape_of_shared (hn : c.nodeType? n = some x) (hm : c.nodeType? m = some x)
    (hx : x < c.types.size) (shape : Shape) : (c.setShape n shape).2.shape? m = some shape := by
  rw [setShape_of_some hn]
  change (c.nodeType? m).map (c.types.set x shape).get = some shape
  rw [hm, Option.map_some, TypeStore.get_set _ _ _ _ hx, if_pos rfl]

/-- and so is a type that the node is made to see. -/
lemma shape?_bind_of_shared (hn : c.nodeType? n = some x) (hm : c.nodeType? m = some x)
    (hx : x < c.types.size) (source : Slot) :
    (c.bind n source).2.shape? m = some (c.types.get source) := by
  rw [bind_of_some hn]
  change (c.nodeType? m).map (c.types.assign x source).get = some (c.types.get source)
  rw [hm, Option.map_some, TypeStore.get_assign _ _ _ _ hx, if_pos rfl]

end Context

/-! ### Passes -/

namespace Pass

/-- **One pass**, over any program and from any context. -/
lemma retains_run (pass : Pass) (a : Analysis) :
    a.context.Retains (pass.run.outcome a).2.context := by
  cases pass with
  | hoist | completeness | nullability => exact .refl _
  | entryPoint =>
    have hcontext : (entryPoint.run.outcome a).2.context = a.context :=
      context_liftExcept a.program.withEntryPoint _ a fun _ => rfl
    rw [hcontext]
    exact .refl _
  | collect mode =>
    have hwithin : Within (Grows fun _ => True) (Collect.program mode a.program) :=
      ScopeMode.within_inScope (Collect.within_decls mode _)
    exact .of_grows (hwithin a.context)
  | resolve mode =>
    have hwithin : Within (Grows fun _ => True) (Resolve.program mode a.program) :=
      Resolve.within_program mode a.program
    exact .of_grows (hwithin a.context)
  | flow =>
    obtain ⟨g, hg⟩ := a.context.recordFlows_eq a.program.declarations
    change a.context.Retains (a.context.recordFlows a.program.declarations)
    rw [hg]
    exact ⟨le_rfl, fun _ _ h => h⟩

lemma retains_runAll : ∀ (passes : List Pass) (a : Analysis),
    a.context.Retains ((runAll passes).outcome a).2.context
  | [], _ => .refl _
  | pass :: rest, a => by
    have hpass := retains_run pass a
    rw [runAll, outcome_bind]
    rcases hrun : pass.run.outcome a with ⟨_ | _, a1⟩ <;> rw [hrun] at hpass
    · exact hpass
    · exact hpass.trans (retains_runAll rest a1)

end Pass

/-! ### Runs -/

/-- What can be done next: an operation on the context, passes up to the first fault, or to go on
with another program in the same context. -/
inductive Move where
  | op (step : Op)
  | passes (ps : List Pass)
  | program (p : Program)

/-- What becomes of an analysis, whether the move ends well or in a fault. -/
def Move.apply (a : Analysis) : Move → Analysis
  | .op step => { a with context := (step.run.outcome a.context).2 }
  | .passes ps => ((Pass.runAll ps).outcome a).2
  | .program p => { a with program := p }

lemma Move.retains (a : Analysis) (move : Move) : a.context.Retains (move.apply a).context := by
  cases move with
  | op step => exact .of_onward (step.onward a.context)
  | passes ps => exact Pass.retains_runAll ps a
  | program p => exact .refl _

namespace Analysis

/-- The context after the first `i` moves of a run. -/
def moment (a : Analysis) (moves : List Move) (i : Nat) : Context :=
  ((moves.take i).foldl Move.apply a).context

/-- **What one move retains, a run retains.** -/
lemma retains_foldl (moves : List Move) (a : Analysis) :
    a.context.Retains (moves.foldl Move.apply a).context := by
  induction moves generalizing a with
  | nil => exact .refl _
  | cons move moves ih => exact (move.retains a).trans (ih (move.apply a))

lemma retains_moment (a : Analysis) (moves : List Move) {i j : Nat} (h : i ≤ j) :
    (a.moment moves i).Retains (a.moment moves j) := by
  obtain ⟨k, rfl⟩ := Nat.exists_eq_add_of_le h
  rw [moment, moment, List.take_add, List.foldl_append]
  exact retains_foldl _ _

/-- **Slots are never retargeted.** In every run from any analysis, a later moment has all slots of
an earlier one, and a node that has a slot at the earlier moment has the same one at the later
moment. Two nodes that share a slot share it at the later moment and have the same type there; a
type that is then stored for one of them, or that it is made to see, is the type of the other one
too. -/
theorem slots_never_retargeted (a : Analysis) (moves : List Move) {i j : Nat} (h : i ≤ j) :
    (a.moment moves i).types.size ≤ (a.moment moves j).types.size ∧
    (∀ n x, (a.moment moves i).nodeType? n = some x → (a.moment moves j).nodeType? n = some x) ∧
    ∀ n m x, (a.moment moves i).nodeType? n = some x → (a.moment moves i).nodeType? m = some x →
      (a.moment moves j).nodeType? n = some x ∧ (a.moment moves j).nodeType? m = some x ∧
      (a.moment moves j).shape? n = (a.moment moves j).shape? m ∧
      (x < (a.moment moves j).types.size →
        (∀ shape, ((a.moment moves j).setShape n shape).2.shape? m = some shape) ∧
        ∀ source, ((a.moment moves j).bind n source).2.shape? m =
          some ((a.moment moves j).types.get source)) := by
  have hretains := a.retains_moment moves h
  refine ⟨hretains.size_le, hretains.nodeType, fun n m x hn hm => ?_⟩
  have hn' := hretains.nodeType n x hn
  have hm' := hretains.nodeType m x hm
  refine ⟨hn', hm', ?_, fun hx => ⟨Context.shape?_setShape_of_shared hn' hm' hx,
    Context.shape?_bind_of_shared hn' hm' hx⟩⟩
  rw [Context.shape?, Context.shape?, hn', hm']

/-- A variable of a class that has been declared before it, and one that cannot be resolved. -/
def boundEarly : Program :=
  (StateT.run (m := Id) (do
    let x ← Draft.variableDecl "x" (some (← Draft.namedType "Int" [])) none
    let base ← Draft.classDecl "Base" none [.var x]
    let b ← Draft.variableDecl "b" (some (← Draft.namedType "Base" [])) none
    let c ← Draft.variableDecl "c" none (some (← Draft.identifier "missing"))
    Draft.program [.object base, .var b, .var c] []) {}).1

/-- The annotation shares the slot of the class. Passes end in faults, the type of the annotation is
replaced, and the first pass comes once more. -/
def disturbances : List Move :=
  [.passes [.collect .fresh], .passes [.resolve .fresh, .flow], .op (.setShape 8 .string),
    .passes [.collect .reopen, .completeness]]

theorem slots_never_retargeted_disturbances :
    (moment { program := boundEarly } disturbances 1).nodeType? 6 = some 0 ∧
    (moment { program := boundEarly } disturbances 1).nodeType? 8 = some 0 ∧
    (moment { program := boundEarly } disturbances 4).nodeType? 6 = some 0 ∧
    (moment { program := boundEarly } disturbances 3).shape? 8 = some .string ∧
    (moment { program := boundEarly } disturbances 3).shape? 6 = some .string := by
  have hclass : (moment { program := boundEarly } disturbances 1).nodeType? 6 = some 0 := by
    decide +kernel
  have hannotation : (moment { program := boundEarly } disturbances 1).nodeType? 8 = some 0 := by
    decide +kernel
  have hstring : (moment { program := boundEarly } disturbances 3).shape? 8 = some .string := by
    decide +kernel
  obtain ⟨-, hkept, -⟩ := slots_never_retargeted { program := boundEarly } disturbances
    (show 1 ≤ 4 by decide)
  obtain ⟨-, -, hshared⟩ := slots_never_retargeted { program := boundEarly } disturbances
    (show 1 ≤ 3 by decide)
  obtain ⟨-, -, hsame, -⟩ := hshared 6 8 0 hclass hannotation
  exact ⟨hclass, hannotation, hkept 6 0 hclass, hstring, hsame.trans hstring⟩

end Analysis

end Sema
