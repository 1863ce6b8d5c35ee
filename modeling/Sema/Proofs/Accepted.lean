import Sema.Proofs.Checks

/-!
What it means that an analysis accepts a program: both walks end well, and every node of the tree
has a slot with a complete type in the end. The flow graphs that are recorded last change nothing
about types.
-/

namespace Sema

open Sema.Action

/-! ### The passes -/

namespace Context

section

variable [Access]

/-- Records the graph of a function, without what is inside a class. -/
def recordOwnFlow (c : Context) : Decl → Context
  | .function f => c.setFlow f.id f.flowGraph
  | .object _ | .var _ | .enum _ | .foreign _ => c

mutual

lemma recordFlow_eq_foldl : ∀ (d : Decl) (c : Context),
    c.recordFlow d = d.all.foldl recordOwnFlow c
  | .object o, c => recordClassFlow_eq_foldl o c
  | .function _, _ | .var _, _ | .enum _, _ | .foreign _, _ => rfl

lemma recordClassFlow_eq_foldl : ∀ (o : ClassDecl) (c : Context),
    c.recordClassFlow o = o.all.foldl recordOwnFlow c
  | ⟨_, _, _, members⟩, c => recordFlows_eq_foldl members c

lemma recordFlows_eq_foldl : ∀ (ds : List Decl) (c : Context),
    c.recordFlows ds = (Decl.allOf ds).foldl recordOwnFlow c
  | [], _ => rfl
  | d :: rest, c => by
    rw [recordFlows, recordFlow_eq_foldl d c, recordFlows_eq_foldl rest, Decl.allOf,
      List.foldl_append]

end

end

lemma recordFlows_eq (c : Context) (ds : List Decl) :
    ∃ g, c.recordFlows ds = { c with flow := g } := by
  rw [recordFlows_eq_foldl]
  induction Decl.allOf ds generalizing c with
  | nil => exact ⟨c.flow, rfl⟩
  | cons d rest ih =>
    obtain ⟨g, hg⟩ := ih (c.recordOwnFlow d)
    refine ⟨g, hg.trans ?_⟩
    cases d <;> rfl

end Context

namespace Pass

lemma runs_onContext {x : Program → Check Unit} {a b : Analysis} {u : Unit} :
    Runs (onContext x) a u b ↔
      ∃ c, Runs (x a.program) a.context () c ∧ { a with context := c } = b := by
  have h : (onContext x).outcome a =
      (((x a.program).outcome a.context).1,
        { a with context := ((x a.program).outcome a.context).2 }) := rfl
  simp only [Runs, h]
  rcases (x a.program).outcome a.context with ⟨_ | u, c⟩ <;> simp

lemma runs_liftExcept {α : Type} {x : Except Fault α} {a b : Analysis} {v : α} :
    Runs (run.liftExcept x) a v b ↔ x = .ok v ∧ a = b := by
  have h : (run.liftExcept x).outcome a = (x, a) := rfl
  simp [Runs, h]

end Pass

/-- What an accepted program went through: it was rearranged, collected and resolved, and then
checked. -/
structure Analysis.Accepts (p : Program) (a : Analysis) (collected resolved : Context) : Prop where
  arranged : p.hoist.withEntryPoint = .ok a.program
  collect : Runs (Collect.program .fresh a.program) {} () collected
  resolve : Runs (Resolve.program .reopen a.program) collected () resolved
  complete : a.program.checkComplete resolved = .ok ()
  nulls : a.program.checkNulls resolved = .ok ()
  flows : a.context = resolved.recordFlows a.program.declarations

lemma Analysis.Accepts.context {p : Program} {a : Analysis} {c1 c2 : Context}
    (h : Analysis.Accepts p a c1 c2) : ∃ g, a.context = { c2 with flow := g } := by
  rw [h.flows]
  exact c2.recordFlows_eq _

theorem Analysis.accepts_of_standard {p : Program} {a : Analysis}
    (h : Analysis.standard p = .ok a) : ∃ c1 c2, Analysis.Accepts p a c1 c2 := by
  have hrun : Runs (Pass.runAll Pass.standard) { program := p } () a := by
    unfold standard run at h
    split at h
    · next heq =>
      cases h
      exact heq
    · cases h
  simp only [Pass.standard, Pass.runAll, Pass.run, runs_bind, runs_modify, runs_get, runs_set,
    runs_pure, Pass.runs_onContext, Pass.runs_liftExcept] at hrun
  obtain ⟨_, _, rfl, _, _, ⟨_, _, ⟨rfl, rfl⟩, p', _, ⟨hp', rfl⟩, rfl⟩, _, _, ⟨c1, hc1, rfl⟩, _, _,
    ⟨c2, hc2, rfl⟩, _, _, ⟨_, _, ⟨rfl, rfl⟩, hcomplete, rfl⟩, _, _, ⟨_, _, ⟨rfl, rfl⟩, hnulls, rfl⟩,
    _, _, rfl, _, rfl⟩ := hrun
  exact ⟨c1, c2, hp', hc1, hc2, hcomplete, hnulls, rfl⟩

/-- A run on a fixed program that can be evaluated. -/
lemma Analysis.exists_of_map_eq {β : Type} {p : Program} {f : Analysis → β} {y : β}
    (h : (Analysis.standard p).toOption.map f = some y) :
    ∃ a, Analysis.standard p = .ok a ∧ f a = y := by
  revert h
  rcases Analysis.standard p with _ | a
  · intro h
    cases h
  · exact fun h => ⟨a, rfl, Option.some.inj h⟩

/-! ### Complete nodes -/

/-- The node has a slot, and the type in it is complete. -/
def Context.Complete (c : Context) (n : NodeId) : Prop :=
  ∃ x, c.nodeType? n = some x ∧ c.types.isIncomplete x = false

/-- **Completeness**: every node of a program that passes the check is complete. -/
theorem Program.complete_of_checkComplete {p : Program} {c : Context}
    (h : p.checkComplete c = .ok ()) : ∀ n ∈ p.nodes, c.Complete n := by
  intro n hn
  obtain ⟨y, hy, ⟨node, text⟩, ht, rfl⟩ := (Piece.program p).mem_nodes_iff.mp hn
  have hdone : c.Finished node.id := by
    by_contra hnot
    exact (p.checkComplete_exact c).1.mp h y hy ⟨node, text, ht, hnot⟩
  obtain ⟨x, hx, hparts⟩ := hdone
  refine ⟨x, hx, Bool.eq_false_iff.mpr fun hinc => ?_⟩
  obtain ⟨z, hpart, hz⟩ := TypeStore.isIncomplete_iff.mp hinc
  exact absurd hz (by simp [hparts z hpart])

end Sema
