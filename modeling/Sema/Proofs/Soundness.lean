import Sema.Proofs.Bodies

/-!
In a program that passes the analysis the bodies of functions obey the rules of typing.
-/

namespace Sema

open Sema.Action Context Resolving Resolve

/-- The body of the function obeys the rules. -/
def FunctionDecl.Sound (c : Context) (f : FunctionDecl) : Prop :=
  ∃ r ps, c.shape? f.id = some (.function r ps) ∧ (Piece.block f.body).Sound c r

/-- The second walk leaves functions whose bodies obey the rules, if these get complete. -/
lemma Resolve.sound_program {p : Program} {c1 c2 : Context} (hp : p.FullyNumbered)
    (hd : p.DistinctTypeNames) (hcollect : Runs (Collect.program .fresh p) {} () c1)
    (hresolve : Runs (program .reopen p) c1 () c2) :
    ∀ f, .function f ∈ p.allDecls → (∀ n ∈ f.id :: f.body.nodes, c2.Complete n) → f.Sound c2 := by
  refine (ensures_program_of_starts (E := fun _ => True) (Q := fun c => ∀ f : FunctionDecl,
    Decl.function f ∈ p.allDecls → (∀ n ∈ f.id :: f.body.nodes, c.Complete n) → f.Sound c)
    [] (fun _ => trivial) hp hcollect (fun _ h => h)
    fun {plan s} hstarts hsame hc hhouses => ?_).value _ _ hresolve
  obtain ⟨htidy, hframes, -⟩ := Analysis.started_of_same hp hcollect hsame
  let G : Outlook := {
    program := p, plan := plan, start := s, numbered := hp, distinct := hd, starts := hstarts
    tidy := htidy, frames := hframes, strict := False, acyclic := False.elim
    symbols := False.elim, fields := False.elim, owned := False.elim }
  have hstanding : Standing G.groundwork plan p.allDecls s :=
    { hstarts.standing hp hc hhouses with
      footing := G.footing
      returns := fun f hf =>
        (hstarts.returns hp.toNumbered hf).imp fun _ h => ⟨h.key, h.shape, h.lt, h.result⟩ }
  refine ((intact_decls p.declarations hc).weaken (fun _ _ => trivial)
    fun _ _ _ h => h).runs.imp fun _ s' _ ⟨hr, _⟩ f hf hcomplete => ?_
  obtain ⟨hs, -, hall⟩ := Outlook.upholds_decls p.declarations hstanding (Outlook.stage_start G) hr
  obtain ⟨r, hr⟩ := hstanding.returns f hf
  obtain ⟨z, ps, hz, hget, -⟩ := hs.result hr
  exact ⟨r, ps, by simp [shape?, hz, hget], hall f hf r hr ⊥ s' .refl hcomplete⟩

/-! ### Accepted programs -/

/-- The pieces that are at most `k` steps below, in a form that can be evaluated. -/
def Piece.within : Nat → Piece → List Piece
  | 0, x => [x]
  | k + 1, x => x :: x.children.flatMap (within k)

lemma Piece.mem_walk_of_within : ∀ {k : Nat} {x y : Piece}, y ∈ x.within k → y ∈ x.walk
  | 0, x, y, h => by
    rw [walk_eq, List.mem_singleton.mp h]
    exact List.mem_cons_self
  | k + 1, x, y, h => by
    rw [walk_eq]
    rcases List.mem_cons.mp h with rfl | h
    · exact List.mem_cons_self
    · obtain ⟨z, hz, hy⟩ := List.mem_flatMap.mp h
      exact List.mem_cons_of_mem _ (List.mem_flatMap.mpr ⟨z, hz, mem_walk_of_within hy⟩)

/-- The piece is an `is` whose operands have types that are not related. -/
def Piece.unrelated (c : Context) : Piece → Bool
  | .expression (.binary _ .is left right) =>
    match c.nodeType? left.node.id, c.nodeType? right.node.id with
    | some l, some r => !Relation.hierarchy.holds c.types (c.types.valueOf l) (c.types.valueOf r)
    | _, _ => false
  | _ => false

namespace Analysis

variable {p : Program} {a : Analysis}

/-- **Bodies are sound.** If all classes and enums of an accepted program have different names,
every call, assignment, index and operator, every condition and every `return` in the body of a
function obeys the rule for it, by the types that the nodes have in the end. Of `is` this is so
where both of its operands have types of their own. -/
theorem bodies_are_sound (hp : p.FullyNumbered) (hd : p.DistinctTypeNames)
    (h : Analysis.standard p = .ok a) :
    ∀ f, .function f ∈ a.program.allDecls → ∃ r ps,
      a.context.shape? f.id = some (.function r ps) ∧
        ∀ y ∈ (Piece.block f.body).walk, y.Lawful a.context r := by
  obtain ⟨c1, c2, hacc⟩ := accepts_of_standard h
  obtain ⟨g, hg⟩ := hacc.context
  intro f hf
  have hcomplete := Program.complete_of_checkComplete hacc.complete
  rw [hg]
  refine Resolve.sound_program (hp.hoist.withEntryPoint hacc.arranged)
    (hd.hoist.withEntryPoint hacc.arranged) hacc.collect hacc.resolve f hf fun n hn =>
      hcomplete n ?_
  rw [Program.nodes, List.mem_append, List.mem_append, List.mem_flatMap, List.mem_flatMap]
  rcases List.mem_cons.mp hn with rfl | hn
  · exact .inl (.inl ⟨_, hf, Decl.node_mem_signature _⟩)
  · exact .inl (.inr ⟨_, hf, hn⟩)

/-- A function with every kind of check in it. -/
def manyRules : Program :=
  (StateT.run (m := Id) (do
    let color ← Draft.enumDecl "Color" [← Draft.enumItem "red" []]
    let o ← Draft.classDecl "A" none []
    let n ← Draft.parameter "n" (← Draft.optionalType (← Draft.namedType "Int" []))
    let c ← Draft.parameter "c" (← Draft.namedType "Color" [])
    let same ← Draft.binary .eq (← Draft.shorthand "red") (← Draft.identifier "c")
    let early ← Draft.ifStmt same [← Draft.returnStmt (some (← Draft.literal (.integer "7")))] none
    let set ← Draft.expressionStmt
      (← Draft.assign (← Draft.identifier "n") (← Draft.literal (.integer "1")))
    let loop ← Draft.whileStmt
      (← Draft.binary .is (← Draft.identifier "c") (← Draft.identifier "Color")) [set]
    let made ← Draft.variableStmt "a" none (some (← Draft.call (← Draft.identifier "A") []))
    let list ← Draft.array [← Draft.literal (.integer "1"), ← Draft.literal (.integer "2")]
    let first ← Draft.index list (← Draft.literal (.integer "0"))
    let again ← Draft.call (← Draft.identifier "f") [first, ← Draft.shorthand "red"]
    let f ← Draft.functionDecl "f" [n, c]
      (some (← Draft.optionalType (← Draft.namedType "Int" [])))
      [early, loop, made, ← Draft.returnStmt (some again)]
    Draft.program [.enum color, .object o, .function f] [← Draft.returnStmt none]) {}).1

theorem bodies_are_sound_manyRules : ∃ a, Analysis.standard manyRules = .ok a ∧
    manyRules.FullyNumbered ∧ manyRules.DistinctTypeNames ∧
    a.results.map Prod.fst = ["f", "main"] ∧
    ∀ f, .function f ∈ a.program.allDecls → ∃ r ps,
      a.context.shape? f.id = some (.function r ps) ∧
        ∀ y ∈ (Piece.block f.body).walk, y.Lawful a.context r := by
  have hp : manyRules.FullyNumbered :=
    ⟨⟨by decide +kernel, by decide +kernel⟩, by decide +kernel, by decide +kernel⟩
  have hd : (manyRules.allDecls.filterMap Decl.typeName?).Nodup := by decide +kernel
  obtain ⟨a, ha, hresults⟩ := exists_of_map_eq (p := manyRules)
    (f := fun a => a.results.map Prod.fst) (y := ["f", "main"]) (by decide +kernel)
  exact ⟨a, ha, hp, hd, hresults, bodies_are_sound hp hd ha⟩

/-- A comparison in a record, whose left operand gets its type when the record does. -/
def lateOperand : Program :=
  (StateT.run (m := Id) (do
    let color ← Draft.enumDecl "Color" [← Draft.enumItem "red" []]
    let p ← Draft.parameter "p" (← Draft.recordType
      [("p", ← Draft.namedType "Bool" []), ("q", ← Draft.namedType "Color" [])])
    let f ← Draft.functionDecl "f" [p] none []
    let x ← Draft.parameter "x" (← Draft.optionalType (← Draft.namedType "Color" []))
    let test ← Draft.binary .is (← Draft.shorthand "red") (← Draft.identifier "x")
    let record ← Draft.record [("p", test), ("q", ← Draft.shorthand "red")]
    let g ← Draft.functionDecl "g" [x] none
      [← Draft.expressionStmt (← Draft.call (← Draft.identifier "f") [record])]
    Draft.program [.enum color, .function f, .function g] []) {}).1

/-- Operands without types of their own may be left unrelated. -/
theorem operands_unrelated : lateOperand.FullyNumbered ∧ lateOperand.DistinctTypeNames ∧
    ∃ a, Analysis.standard lateOperand = .ok a ∧ ∃ f, .function f ∈ a.program.allDecls ∧
      ∃ y ∈ (Piece.block f.body).walk, y.unrelated a.context = true := by
  have hd : (lateOperand.allDecls.filterMap Decl.typeName?).Nodup := by decide +kernel
  obtain ⟨a, ha, hany⟩ := exists_of_map_eq (p := lateOperand) (y := true)
    (f := fun a => (a.program.function? "g").any fun f =>
      ((Piece.block f.body).within 5).any (Piece.unrelated a.context)) (by decide +kernel)
  refine ⟨⟨⟨by decide +kernel, by decide +kernel⟩, by decide +kernel, by decide +kernel⟩, hd, a, ha,
    ?_⟩
  obtain ⟨f, hf, hany⟩ := (Option.any_eq_true _ _).mp hany
  obtain ⟨y, hy, hunrelated⟩ := List.any_eq_true.mp hany
  exact ⟨f, Decl.mem_allOf.mpr ⟨_, (Program.mem_of_function? hf).1, List.mem_singleton_self _⟩, y,
    Piece.mem_walk_of_within hy, hunrelated⟩

end Analysis

end Sema
