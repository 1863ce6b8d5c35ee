import Sema.Proofs.Returns

/-!
Variables of the program and of classes have the type that they were given. The annotation of a
variable is resolved again before its value is, and the variable gets a copy of what it stands for.
-/

namespace Sema

open Sema.Action Context

/-- The node that a variable has its type from: its annotation, or else its value. -/
def VariableDecl.source? (v : VariableDecl) : Option NodeId :=
  match v.type with
  | some type => some type.node.id
  | none => v.value.map (·.node.id)

namespace Analysis

variable {p : Program} {a : Analysis}

/-- **Variables have the type that they are annotated with**, if all classes and enums have
different names. -/
theorem variable_has_given_type (hp : p.FullyNumbered) (hd : p.DistinctTypeNames)
    (h : Analysis.standard p = .ok a) :
    ∀ v, .var v ∈ a.program.allDecls → v.type.isSome →
      ∃ n shape, v.source? = some n ∧ a.context.shape? v.id = some shape ∧
        a.context.shape? n = some shape := by
  obtain ⟨c1, c2, hacc⟩ := accepts_of_standard h
  obtain ⟨G, s', hprogram, -, hdecls, rfl⟩ := hacc.setting hp hd
  obtain ⟨g, hg⟩ := hacc.context
  rw [← hprogram] at hdecls ⊢
  have hstart : Resolving.Lettered G.groundwork G.start := fun v hv l hl =>
    G.starts.annotated l
      (List.mem_flatMap.mpr ⟨.var v, Program.mem_variables.mp hv, hl⟩)
  have hend := (G.advances hdecls).lettered trivial hstart
  intro v hv hsome
  obtain ⟨type, htype⟩ := Option.isSome_iff_exists.mp hsome
  have hmem : (v.id, Layer.copy false type.node.id) ∈ (Decl.var v).annotated := by
    simp [Decl.annotated, htype]
  obtain ⟨x, hx, -, y, hy, -, hstays⟩ := hend v (Program.mem_variables.mpr hv) _ hmem
  have heq := hstays.eq ⟨G.distinct.unambiguous, rfl⟩
  rw [hg]
  refine ⟨type.node.id, s'.types.get x, by rw [VariableDecl.source?, htype], ?_, ?_⟩
  · exact congrArg (Option.map s'.types.get) hx
  · rw [heq]
    exact congrArg (Option.map s'.types.get) hy

/-- Variables of the program and of a class, given their types by annotations and by values, which
refer to variables further down. -/
def givenTypes : Program :=
  (StateT.run (m := Id) (do
    let x ← Draft.variableDecl "x" none (some (← Draft.member (← Draft.self) "y"))
    let y ← Draft.variableDecl "y" none (some (← Draft.array [← Draft.identifier "z"]))
    let c ← Draft.classDecl "A" none [.var x, .var y]
    let z ← Draft.variableDecl "z" (some (← Draft.recordType [("a", ← Draft.namedType "A" [])]))
      none
    Draft.program [.object c, .var z] []) {}).1

theorem variable_has_given_type_givenTypes : ∃ a, Analysis.standard givenTypes = .ok a ∧
    givenTypes.FullyNumbered ∧ givenTypes.DistinctTypeNames ∧
    a.program.variables.map (·.name.name) = ["z", "x", "y"] ∧
    ∀ v, .var v ∈ a.program.allDecls → v.type.isSome →
      ∃ n shape, v.source? = some n ∧ a.context.shape? v.id = some shape ∧
        a.context.shape? n = some shape := by
  have hp : givenTypes.FullyNumbered :=
    ⟨⟨by decide +kernel, by decide +kernel⟩, by decide +kernel, by decide +kernel⟩
  have hd : (givenTypes.allDecls.filterMap Decl.typeName?).Nodup := by decide +kernel
  obtain ⟨a, ha, hnames⟩ := exists_of_map_eq (p := givenTypes)
    (f := fun a => a.program.variables.map (·.name.name)) (y := ["z", "x", "y"])
    (by decide +kernel)
  exact ⟨a, ha, hp, hd, hnames, variable_has_given_type hp hd ha⟩

/-- The variables that have not the type of their annotation or value. -/
def misfits (a : Analysis) : List VariableDecl :=
  a.program.variables.filter fun v =>
    decide (a.context.shape? v.id ≠ v.source?.bind a.context.shape?)

/-- A function, and a class with a function of the same name further down. -/
def hiddenCallee : Program :=
  (StateT.run (m := Id) (do
    let p ← Draft.parameter "p" (← Draft.recordType [])
    let one ← Draft.returnStmt (some (← Draft.literal (.integer "1")))
    let f ← Draft.functionDecl "f" [p] (some (← Draft.namedType "Int" [])) [one]
    let record ← Draft.record [("a", ← Draft.identifier "y")]
    let x ← Draft.variableDecl "x" none (some (← Draft.call (← Draft.identifier "f") [record]))
    let y ← Draft.variableDecl "y" none (some (← Draft.identifier "x"))
    let p ← Draft.parameter "p" (← Draft.recordType [])
    let text ← Draft.returnStmt (some (← Draft.literal (.string "s")))
    let g ← Draft.functionDecl "f" [p] (some (← Draft.namedType "String" [])) [text]
    let c ← Draft.classDecl "A" none [.var x, .var y, .function g]
    Draft.program [.function f, .object c] []) {}).1

/-- Three classes of one name, with a variable of that type in front of each. -/
def threeOfOneName : Program :=
  (StateT.run (m := Id) (do
    let a1 ← Draft.classDecl "A" none []
    let v0 ← Draft.variableDecl "v0" (some (← Draft.namedType "A" [])) none
    let d ← Draft.classDecl "D" none [.var v0]
    let v1 ← Draft.variableDecl "v1" (some (← Draft.namedType "A" [])) none
    let a2 ← Draft.classDecl "A" none []
    let v2 ← Draft.variableDecl "v2" (some (← Draft.namedType "A" [])) none
    let a3 ← Draft.classDecl "A" none []
    let c ← Draft.classDecl "C" none [.var v2, .object a3]
    let b ← Draft.classDecl "B" none [.var v1, .object a2, .object c]
    Draft.program [.object a1, .object d, .object b] []) {}).1

theorem variables_misfit :
    (hiddenCallee.FullyNumbered ∧ hiddenCallee.DistinctTypeNames ∧
      ∃ a, Analysis.standard hiddenCallee = .ok a ∧
        a.misfits.map (fun v => (v.name.name, a.context.shape? v.id,
          v.source?.bind a.context.shape?)) = [("y", some (.number .int), some .string)]) ∧
    (threeOfOneName.FullyNumbered ∧ ∃ a, Analysis.standard threeOfOneName = .ok a ∧
      a.misfits.map (·.name.name) = ["v0"]) := by
  refine ⟨?_, ?_⟩
  · have hd : (hiddenCallee.allDecls.filterMap Decl.typeName?).Nodup := by decide +kernel
    exact ⟨⟨⟨by decide +kernel, by decide +kernel⟩, by decide +kernel, by decide +kernel⟩, hd,
      exists_of_map_eq (by decide +kernel)⟩
  · exact ⟨⟨⟨by decide +kernel, by decide +kernel⟩, by decide +kernel, by decide +kernel⟩,
      exists_of_map_eq (by decide +kernel)⟩

end Analysis

end Sema
