import Sema.Proofs.Accepted
import Sema.Syntax.Draft

/-!
The two rearrangements of a program lose nothing and have nothing to do a second time. Hoisting
sorts every list of declarations into its variables and the others, each group in its order. The
entry point takes all loose statements, in their order, or the program stays as it is.

Hoisting acts on each declaration of a list by itself and keeps what is a variable, so that it
commutes with the sorting; that sorted lists stay as they are then carries over to nested classes.
-/

namespace Sema

open Sema.Action

/-! ### Variables first -/

mutual

/-- The second declaration is the first one with sorted members, in it and in the classes among
them, and otherwise the same. -/
inductive Hoisted : Decl → Decl → Prop
  | object {node : Node} {name : Ident} {base : Option TypeExpr} {members members' : List Decl} :
    HoistedAll members members' →
    Hoisted (.object ⟨node, name, base, members⟩) (.object ⟨node, name, base, members'⟩)
  | function (f : FunctionDecl) : Hoisted (.function f) (.function f)
  | var (v : VariableDecl) : Hoisted (.var v) (.var v)
  | enum (e : EnumDecl) : Hoisted (.enum e) (.enum e)
  | foreign (f : ForeignDecl) : Hoisted (.foreign f) (.foreign f)

/-- The second list has the variables of the first one in their order and then its other
declarations in theirs, which may have changed inside. -/
inductive HoistedAll : List Decl → List Decl → Prop
  | sort {ds others : List Decl} :
    List.Forall₂ Hoisted (ds.filter fun d => !d.isVariable) others →
    HoistedAll ds (ds.filter Decl.isVariable ++ others)

end

lemma hoistAll_eq_map (ds : List Decl) : hoistAll ds = ds.map Decl.hoist := by
  induction ds with
  | nil => rfl
  | cons d ds ih => rw [hoistAll, ih, List.map_cons]

@[simp] lemma Decl.isVariable_hoist (d : Decl) : d.hoist.isVariable = d.isVariable := by
  cases d <;> rfl

lemma filter_hoistAll {q : Bool → Bool} (ds : List Decl) :
    (hoistAll ds).filter (fun d => q d.isVariable) =
      hoistAll (ds.filter fun d => q d.isVariable) := by
  rw [hoistAll_eq_map, hoistAll_eq_map, List.filter_map]
  simp [Function.comp_def]

/-- Variables have no members. -/
lemma hoistAll_variables (ds : List Decl) :
    hoistAll (ds.filter Decl.isVariable) = ds.filter Decl.isVariable := by
  rw [hoistAll_eq_map]
  refine (List.map_congr_left fun d hd => ?_).trans (List.map_id _)
  cases d with
  | var v => rfl
  | _ => simp [Decl.isVariable] at hd

lemma variablesFirst_hoistAll (ds : List Decl) : variablesFirst (hoistAll ds) =
    ds.filter Decl.isVariable ++ hoistAll (ds.filter fun d => !d.isVariable) := by
  have hvars := (filter_hoistAll (q := id) ds).trans (hoistAll_variables ds)
  exact congrArg₂ (· ++ ·) hvars (filter_hoistAll (q := not) ds)

/-- A list is sorted once its declarations are. -/
lemma hoistedAll_of_mem {ds : List Decl} (h : ∀ d ∈ ds, Hoisted d d.hoist) :
    HoistedAll ds (variablesFirst (hoistAll ds)) := by
  rw [variablesFirst_hoistAll, hoistAll_eq_map]
  refine .sort (List.forall₂_map_right_iff.2 (List.forall₂_same.2 fun d hd => ?_))
  exact h d (List.mem_of_mem_filter hd)

mutual

lemma hoisted_hoist : ∀ d : Decl, Hoisted d d.hoist
  | .object ⟨_, _, _, members⟩ => .object (hoistedAll_of_mem (hoisted_of_mem members))
  | .function f => .function f
  | .var v => .var v
  | .enum e => .enum e
  | .foreign f => .foreign f

lemma hoisted_of_mem : ∀ ds : List Decl, ∀ d ∈ ds, Hoisted d d.hoist
  | d :: ds, d', h => by
    rcases List.mem_cons.1 h with h | h
    · exact h ▸ hoisted_hoist d
    · exact hoisted_of_mem ds d' h

end

/-! ### Once and for all -/

lemma hoistAll_variablesFirst (ds : List Decl) :
    hoistAll (variablesFirst ds) = variablesFirst (hoistAll ds) := by
  have hvars := filter_hoistAll (q := id) ds
  have hothers := filter_hoistAll (q := not) ds
  simp only [hoistAll_eq_map, variablesFirst, List.map_append] at *
  exact (congrArg₂ (· ++ ·) hvars hothers).symm

/-- Sorting what is sorted already, up to something behind it that is no variable. -/
lemma variablesFirst_append (ds rest : List Decl)
    (h : ∀ d ∈ rest, d.isVariable = false) :
    variablesFirst (variablesFirst ds ++ rest) = variablesFirst ds ++ rest := by
  have hnone : rest.filter Decl.isVariable = [] := by
    rw [List.filter_eq_nil_iff]
    simpa using h
  have hall : (rest.filter fun d => !d.isVariable) = rest := by
    rw [List.filter_eq_self]
    simpa using h
  simp [variablesFirst, List.filter_append, List.filter_filter, hnone, hall]

mutual

lemma Decl.hoist_hoist : ∀ d : Decl, d.hoist.hoist = d.hoist
  | .object c => congrArg Decl.object (ClassDecl.hoist_hoist c)
  | .function _ | .var _ | .enum _ | .foreign _ => rfl

lemma ClassDecl.hoist_hoist : ∀ c : ClassDecl, c.hoist.hoist = c.hoist
  | ⟨node, name, base, members⟩ => by
    have hsorted := variablesFirst_append (hoistAll members) [] (by simp)
    rw [List.append_nil] at hsorted
    simp only [ClassDecl.hoist]
    rw [hoistAll_variablesFirst, hoistAll_hoistAll members, hsorted]

lemma hoistAll_hoistAll : ∀ ds : List Decl, hoistAll (hoistAll ds) = hoistAll ds
  | [] => rfl
  | d :: ds => by rw [hoistAll, hoistAll, Decl.hoist_hoist d, hoistAll_hoistAll ds]

end

namespace Program

variable {p p' : Program}

/-- **The entry point, case by case.** It fails where there is a `main` and something else to run;
where there is a `main` only, the program stays; and otherwise the loose statements are a new last
function. -/
lemma withEntryPoint_exact (p : Program) :
    (p.function? entryPointName).isSome ∧ p.statements ≠ [] ∧ (∃ f, p.withEntryPoint = .error f) ∨
    (p.function? entryPointName).isSome ∧ p.statements = [] ∧ p.withEntryPoint = .ok p ∨
    p.function? entryPointName = none ∧ p.withEntryPoint = .ok { p with
      declarations := p.declarations ++ [.function p.entryPoint]
      statements := []
      nextId := p.nextId + 3 } := by
  unfold withEntryPoint
  split
  · next hf hs => exact .inr (.inl ⟨by simp [hf], hs, rfl⟩)
  · next hf hs => exact .inl ⟨by simp [hf], by simp [hs], _, rfl⟩
  · next hf => exact .inr (.inr ⟨hf, rfl⟩)

lemma mem_of_function? {name : String} {f : FunctionDecl} (h : p.function? name = some f) :
    .function f ∈ p.declarations ∧ f.name.name = name := by
  obtain ⟨d, hd, hf⟩ := List.exists_of_findSome?_eq_some h
  split at hf
  · split at hf
    · next hname =>
      cases hf
      exact ⟨hd, hname⟩
    · cases hf
  · cases hf

lemma isSome_function?_withEntryPoint (h : p.withEntryPoint = .ok p') :
    (p'.function? entryPointName).isSome := by
  rcases withEntryPoint_exact p with ⟨-, -, f, hf⟩ | ⟨hmain, -, hp⟩ | ⟨-, hp⟩
  · cases hf.symm.trans h
  · cases hp.symm.trans h
    exact hmain
  · cases hp.symm.trans h
    simp [function?, List.findSome?_append, entryPoint]

/-- **The entry point finds one the second time.** -/
lemma withEntryPoint_withEntryPoint (h : p.withEntryPoint = .ok p') :
    p'.withEntryPoint = .ok p' := by
  obtain ⟨f, hf⟩ := Option.isSome_iff_exists.1 (isSome_function?_withEntryPoint h)
  rw [withEntryPoint, hf, statements_withEntryPoint h]

/-- Hoisting leaves hoisted declarations as they are, also with others behind them that are neither
variables nor classes. -/
lemma hoist_declarations_append (p : Program) (rest : List Decl)
    (hrest : ∀ d ∈ rest, d.isVariable = false)
    (hself : hoistAll rest = rest) :
    variablesFirst (hoistAll (p.hoist.declarations ++ rest)) = p.hoist.declarations ++ rest := by
  have hdecls : hoistAll p.hoist.declarations = p.hoist.declarations := by
    rw [hoist, hoistAll_variablesFirst, hoistAll_hoistAll]
  rw [hoistAll_eq_map, List.map_append, ← hoistAll_eq_map, ← hoistAll_eq_map, hself, hdecls]
  exact variablesFirst_append _ rest hrest

/-- **Hoisting finds everything sorted the second time**, and the new `main` behind it. -/
lemma hoist_withEntryPoint (h : p.hoist.withEntryPoint = .ok p') : p'.hoist = p' := by
  rcases withEntryPoint_cases h with ⟨rfl, -⟩ | rfl
  · have hsorted := hoist_declarations_append p [] (by simp) rfl
    rw [List.append_nil] at hsorted
    exact congrArg (fun ds => { p.hoist with declarations := ds }) hsorted
  · have hsorted := hoist_declarations_append p [.function p.hoist.entryPoint]
      (by simp [Decl.isVariable]) rfl
    exact congrArg (fun ds => ({ p.hoist with
      declarations := ds
      statements := []
      nextId := p.hoist.nextId + 3 } : Program)) hsorted

end Program

/-! ### The passes -/

namespace Pass

lemma outcome_entryPoint (a : Analysis) : entryPoint.run.outcome a =
    match a.program.withEntryPoint with
    | .ok p => (.ok (), { a with program := p })
    | .error f => (.error f, a) := by
  have hlift : (run.liftExcept a.program.withEntryPoint).outcome a =
      (a.program.withEntryPoint, a) := rfl
  simp only [run, outcome_bind, outcome_get, hlift]
  rcases a.program.withEntryPoint with f | p <;> rfl

/-- The two passes in a row. -/
lemma runs_rearranging {a b : Analysis}
    (h : (runAll [hoist, entryPoint]).outcome a = (.ok (), b)) :
    a.program.hoist.withEntryPoint = .ok b.program := by
  have hruns : Runs (runAll [hoist, entryPoint]) a () b := h
  simp only [runAll, run, runs_bind, runs_modify, runs_get, runs_set, runs_pure,
    runs_liftExcept] at hruns
  obtain ⟨_, _, rfl, _, _, ⟨_, _, ⟨rfl, rfl⟩, p', _, ⟨hp', rfl⟩, rfl⟩, -, rfl⟩ := hruns
  exact hp'

/-- **Rearranging is stable, loses nothing and is done once.** Hoisting sorts every list of
declarations and changes nothing else. The entry point fails and leaves the program as it is where
there is a `main` beside loose statements; otherwise there is a `main` afterwards and nothing loose:
the one that was there, or a new one that runs the statements in their order. Both passes leave a
program that went through them as it is. -/
theorem rearranging_stable (a : Analysis) :
    (∃ ds, HoistedAll a.program.declarations ds ∧ hoist.run.outcome a =
      (.ok (), { a with program := { a.program with declarations := ds } })) ∧
    ((a.program.function? entryPointName).isSome ∧ a.program.statements ≠ [] ∧
        (∃ f, entryPoint.run.outcome a = (.error f, a)) ∨
      ∃ p' main, entryPoint.run.outcome a = (.ok (), { a with program := p' }) ∧
        p'.statements = [] ∧ .function main ∈ p'.declarations ∧ main.name.name = entryPointName ∧
        (p' = a.program ∨
          a.program.function? entryPointName = none ∧ main.body.statements = a.program.statements ∧
          p' = { a.program with
            declarations := a.program.declarations ++ [.function main]
            statements := []
            nextId := a.program.nextId + 3 })) ∧
    ∀ b, (runAll [hoist, entryPoint]).outcome a = (.ok (), b) →
      hoist.run.outcome b = (.ok (), b) ∧ entryPoint.run.outcome b = (.ok (), b) := by
  refine ⟨⟨_, hoistedAll_of_mem (hoisted_of_mem _), rfl⟩, ?_, fun b hb => ⟨?_, ?_⟩⟩
  · rw [outcome_entryPoint]
    rcases a.program.withEntryPoint_exact with ⟨hmain, hs, f, hf⟩ | ⟨hmain, hs, hp⟩ | ⟨hmain, hp⟩
    · exact .inl ⟨hmain, hs, f, by rw [hf]⟩
    · obtain ⟨main, hmain⟩ := Option.isSome_iff_exists.1 hmain
      obtain ⟨hmem, hname⟩ := Program.mem_of_function? hmain
      exact .inr ⟨_, main, by rw [hp], hs, hmem, hname, .inl rfl⟩
    · exact .inr ⟨_, a.program.entryPoint, by rw [hp], rfl, by simp, rfl,
        .inr ⟨hmain, rfl, rfl⟩⟩
  · have hfix := Program.hoist_withEntryPoint (runs_rearranging hb)
    change (_, { b with program := b.program.hoist }) = _
    rw [hfix]
  · rw [outcome_entryPoint, Program.withEntryPoint_withEntryPoint (runs_rearranging hb)]

/-- A variable behind a class, another one behind a method in it, and two loose statements. -/
def scattered : Program :=
  (StateT.run (m := Id) (do
    let m ← Draft.functionDecl "m" [] none []
    let y ← Draft.variableDecl "y" none (some (← Draft.literal (.integer "1")))
    let c ← Draft.classDecl "C" none [.function m, .var y]
    let x ← Draft.variableDecl "x" none (some (← Draft.literal (.integer "2")))
    let s ← Draft.expressionStmt (← Draft.identifier "x")
    let t ← Draft.returnStmt none
    Draft.program [.object c, .var x] [s, t]) {}).1

theorem rearranging_stable_scattered : ∃ b,
    (runAll [hoist, entryPoint]).outcome { program := scattered } = (.ok (), b) ∧
    b.program.declarations.map Decl.name = ["x", "C", "main"] ∧
    hoist.run.outcome b = (.ok (), b) ∧ entryPoint.run.outcome b = (.ok (), b) := by
  have hrun := runs_of_toOption (x := runAll [hoist, entryPoint]) (s := { program := scattered })
    (a := ()) (by decide +kernel)
  exact ⟨_, hrun, by decide +kernel, (rearranging_stable _).2.2 _ hrun⟩

end Pass

end Sema
