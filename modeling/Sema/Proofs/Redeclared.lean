import Sema.Proofs.Faults
import Sema.Proofs.Rearranging

/-!
A redeclaration is found exactly where a name is repeated: among the parameters of a function, the
items of an enum, and the variables that belong to one block. The first walk settles parameters and
items, and the second one what is in blocks. The passes before and after the walks never complain
about a name.
-/

namespace Sema

open Sema.Action Context

namespace Program

variable {p p' : Program}

/-- Names are different where they have to be: among the parameters of a function, the items of an
enum, and the variables that belong to one block, wherever it is. Where the program has no entry
point, its loose statements are to be the block of one. -/
structure DistinctNames (p : Program) : Prop where
  parameters : ∀ f, .function f ∈ p.allDecls → (f.parameters.map (·.name.name)).Nodup
  items : ∀ e, .enum e ∈ p.allDecls → (e.items.map (·.name.name)).Nodup
  bodies : ∀ f, .function f ∈ p.allDecls → ∀ b ∈ f.body.blocks, b.Unrepeated
  nested : ∀ b ∈ Stmt.blocksAll p.statements, b.Unrepeated
  loose : p.function? entryPointName = none →
    ((Stmt.declaredAll p.statements).map Prod.fst).Nodup

lemma distinctNames_iff : p.DistinctNames ↔
    ((∀ d ∈ p.allDecls, d.Unrepeated) ∧ ∀ d ∈ p.allDecls, ∀ b ∈ d.blocks, b.Unrepeated) ∧
      (∀ b ∈ Stmt.blocksAll p.statements, b.Unrepeated) ∧
      (p.function? entryPointName = none →
        ((Stmt.declaredAll p.statements).map Prod.fst).Nodup) := by
  have hentries : ∀ f : FunctionDecl, (Decl.function f).Unrepeated ↔
      (f.parameters.map (·.name.name)).Nodup := fun f => by
    rw [Decl.Unrepeated, Decl.entries, Parameter.fields, List.map_map]
    rfl
  have hitems : ∀ e : EnumDecl, (Decl.enum e).Unrepeated ↔ (e.items.map (·.name.name)).Nodup :=
    fun e => by
      rw [Decl.Unrepeated, Decl.entries, EnumItem.fields, List.map_map]
      rfl
  constructor
  · intro h
    refine ⟨⟨fun d hd => ?_, fun d hd => ?_⟩, h.nested, h.loose⟩
    · cases d with
      | function f => exact (hentries f).mpr (h.parameters f hd)
      | enum e => exact (hitems e).mpr (h.items e hd)
      | object | var | foreign => exact List.nodup_nil
    · cases d with
      | function f => exact h.bodies f hd
      | object | var | enum | foreign => exact fun _ hb => absurd hb List.not_mem_nil
  · rintro ⟨⟨hdecls, hblocks⟩, hnested, hloose⟩
    exact ⟨fun f hf => (hentries f).mp (hdecls _ hf), fun e he => (hitems e).mp (hdecls _ he),
      fun f hf => hblocks _ hf, hnested, hloose⟩

/-- Where variables are never looked for, that they come first makes no difference. -/
lemma findSome?_variablesFirst {α : Type} {g : Decl → Option α} (hvar : ∀ v, g (.var v) = none)
    (hhoist : ∀ d : Decl, g d.hoist = g d) (ds : List Decl) :
    (variablesFirst (hoistAll ds)).findSome? g = ds.findSome? g := by
  have hvars : (ds.filter Decl.isVariable).findSome? g = none := by
    refine List.findSome?_eq_none_iff.mpr fun d hd => ?_
    cases d with
    | var v => exact hvar v
    | object | function | enum | foreign => cases (List.mem_filter.mp hd).2
  have hg : g ∘ Decl.hoist = g := funext hhoist
  rw [variablesFirst_hoistAll, List.findSome?_append, hvars, Option.none_or, hoistAll_eq_map,
    List.findSome?_map, hg]
  clear hvars
  induction ds with
  | nil => rfl
  | cons d ds ih =>
    cases d with
    | var v =>
      rw [List.findSome?_cons, hvar, ← ih]
      rfl
    | object | function | enum | foreign =>
      rw [List.filter_cons_of_pos rfl, List.findSome?_cons, List.findSome?_cons, ih]

lemma function?_hoist (p : Program) (name : String) : p.hoist.function? name = p.function? name :=
  findSome?_variablesFirst (fun _ => rfl) (fun d => by cases d <;> rfl) p.declarations

lemma forall_allDecls_hoist {P : Decl → Prop} (hP : ∀ d : Decl, P d.hoist ↔ P d) :
    (∀ d ∈ p.hoist.allDecls, P d) ↔ ∀ d ∈ p.allDecls, P d := by
  simp only [p.allDecls_hoist.mem_iff, List.forall_mem_map, hP]

/-- Names in the program that is analysed are different where they are in the one that is given. -/
lemma distinctNames_arranged (h : p.hoist.withEntryPoint = .ok p') : p.DistinctNames ↔
    (∀ d ∈ p'.allDecls, d.Unrepeated) ∧ ∀ d ∈ p'.allDecls, ∀ b ∈ d.blocks, b.Unrepeated := by
  have hentries : ∀ d : Decl, d.hoist.Unrepeated ↔ d.Unrepeated := fun d => by cases d <;> rfl
  have hblocks : ∀ d : Decl, (∀ b ∈ d.hoist.blocks, b.Unrepeated) ↔ ∀ b ∈ d.blocks, b.Unrepeated :=
    fun d => by cases d <;> rfl
  rw [distinctNames_iff, ← forall_allDecls_hoist hentries,
    ← forall_allDecls_hoist (P := fun d => ∀ b ∈ d.blocks, b.Unrepeated) hblocks, ← function?_hoist]
  change _ ∧ (∀ b ∈ Stmt.blocksAll p.hoist.statements, _) ∧
    (_ → ((Stmt.declaredAll p.hoist.statements).map Prod.fst).Nodup) ↔ _
  rcases withEntryPoint_exact p.hoist with ⟨-, -, f, hf⟩ | ⟨hmain, hs, hp⟩ | ⟨hmain, hp⟩
  · cases hf.symm.trans h
  · cases hp.symm.trans h
    have hnone : p.hoist.function? entryPointName ≠ none := Option.isSome_iff_ne_none.mp hmain
    simp [hs, hnone, Stmt.blocksAll]
  · cases hp.symm.trans h
    have hself : (Decl.function p.hoist.entryPoint).Unrepeated := List.nodup_nil
    have hbody : (∀ b ∈ (Decl.function p.hoist.entryPoint).blocks, b.Unrepeated) ↔
        ((Stmt.declaredAll p.hoist.statements).map Prod.fst).Nodup ∧
          ∀ b ∈ Stmt.blocksAll p.hoist.statements, b.Unrepeated := List.forall_mem_cons
    simp only [allDecls, allOf_entryPoint, List.forall_mem_append, List.forall_mem_singleton, hmain,
      forall_const, hself, hbody, and_true]
    tauto

end Program

namespace Analysis

variable {p : Program}

/-- A taken name is no reason to reject a program whose names are different. -/
lemma Rejects.unless {f : Fault} (h : Rejects p f) (hp : p.FullyNumbered) :
    Cause.Unless p.DistinctNames f.cause := by
  cases h with
  | arrange h => exact Program.withEntryPoint_fault h
  | collect harranged h =>
    have hB := fun hnames => ((Program.distinctNames_arranged harranged).mp hnames).1
    exact (Collect.exact_program (hp.hoist.withEntryPoint harranged).toNumbered hB).of_fails h
  | resolve harranged hcollect h =>
    have hB := fun hnames => ((Program.distinctNames_arranged harranged).mp hnames).2
    exact (Resolve.exact_program (hp.hoist.withEntryPoint harranged) hcollect hB).of_fails h
  | check harranged hcollect hresolve h =>
    exact Program.check_fault (Resolve.typed_nodes hp harranged hcollect hresolve) h

/-- Names of an accepted program are different: neither walk has got past one that is taken. -/
lemma distinctNames_of_standard {a : Analysis} (hp : p.FullyNumbered)
    (h : Analysis.standard p = .ok a) : p.DistinctNames := by
  obtain ⟨c1, c2, hacc⟩ := accepts_of_standard h
  have hnum := hp.hoist.withEntryPoint hacc.arranged
  exact (Program.distinctNames_arranged hacc.arranged).mpr
    ⟨(Collect.exact_program hnum.toNumbered False.elim).value _ _ hacc.collect,
      ((Resolve.exact_program hnum hacc.collect False.elim).value _ _ hacc.resolve).2⟩

/-- **A redeclaration is found exactly where a name is repeated.** In a program that is accepted, no
function has two parameters, no enum two items and no block two variables of its own with one name.
And where that is so, no analysis ends in a redeclaration: not for declarations of the program or
members of a class with one name, not for a variable with the name of one outside its block, and not
for the parameters of a foreign function or the items of an enum type. -/
theorem redeclarations_exact (hp : p.FullyNumbered) :
    (∀ a, Analysis.standard p = .ok a → p.DistinctNames) ∧
    (p.DistinctNames → ∀ f, Analysis.standard p = .error f →
      ∀ name kind, f.cause ≠ .redeclared name kind) := by
  refine ⟨fun a h => distinctNames_of_standard hp h, fun hnames f h name kind hcause => ?_⟩
  have hunless := (rejects_of_standard h).unless hp
  rw [hcause] at hunless
  exact hunless.2 rfl hnames

/-- One name for two functions, for two members of a class, for the parameters of a foreign
function, for the items of an enum type, and for a parameter and the variables of blocks inside each
other. -/
def sharedNames : Program :=
  (StateT.run (m := Id) (do
    let left ← Draft.parameter "x" (← Draft.namedType "Int" [])
    let right ← Draft.parameter "x" (← Draft.namedType "Int" [])
    let g ← Draft.foreignDecl "g" [left, right] none
    let outer ← Draft.variableStmt "x" none (some (← Draft.literal (.integer "1")))
    let inner ← Draft.variableStmt "x" none (some (← Draft.literal (.integer "2")))
    let x ← Draft.parameter "x" (← Draft.namedType "Int" [])
    let f1 ← Draft.functionDecl "f" [x] none [outer, ← Draft.blockStmt [inner]]
    let f2 ← Draft.functionDecl "f" [] none []
    let m1 ← Draft.variableDecl "m" none (some (← Draft.literal (.integer "1")))
    let m2 ← Draft.functionDecl "m" [] none []
    let o ← Draft.classDecl "O" none [.var m1, .function m2]
    let e ← Draft.inlineEnumType [← Draft.enumItem "A" [], ← Draft.enumItem "A" []]
    let v ← Draft.variableStmt "v" (some e) (some (← Draft.shorthand "A"))
    Draft.program [.foreign g, .function f1, .function f2, .object o] [v]) {}).1

/-- One name for two variables of a block in a loop. -/
def repeatedName : Program :=
  (StateT.run (m := Id) (do
    let first ← Draft.variableStmt "x" none (some (← Draft.literal (.integer "1")))
    let second ← Draft.variableStmt "x" none (some (← Draft.literal (.integer "2")))
    let loop ← Draft.whileStmt (← Draft.literal (.boolean true)) [first, second]
    Draft.program [] [loop]) {}).1

theorem redeclarations_exact_sharedNames :
    sharedNames.FullyNumbered ∧ (∃ a, Analysis.standard sharedNames = .ok a) ∧
    sharedNames.DistinctNames ∧
    repeatedName.FullyNumbered ∧
    (∃ f, Analysis.standard repeatedName = .error f ∧ f.cause = .redeclared "x" .value) ∧
    ¬ repeatedName.DistinctNames := by
  have hshared : sharedNames.FullyNumbered :=
    ⟨⟨by decide +kernel, by decide +kernel⟩, by decide +kernel, by decide +kernel⟩
  have hrepeated : repeatedName.FullyNumbered :=
    ⟨⟨by decide +kernel, by decide +kernel⟩, by decide +kernel, by decide +kernel⟩
  obtain ⟨a, ha, -⟩ := exists_of_map_eq (p := sharedNames) (f := fun _ => ()) (y := ())
    (by decide +kernel)
  have hcomplaint : complaint? repeatedName = some (.redeclared "x" .value) := by decide +kernel
  obtain ⟨f, hf, hcause⟩ := exists_of_complaint? hcomplaint
  exact ⟨hshared, ⟨a, ha⟩, (redeclarations_exact hshared).1 a ha, hrepeated, ⟨f, hf, hcause⟩,
    fun hnames => (redeclarations_exact hrepeated).2 hnames f hf _ _ hcause⟩

end Analysis

end Sema
