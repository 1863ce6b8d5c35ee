import Sema.Proofs.DeclaredTypes
import Sema.Proofs.Traces

/-!
Functions with a result return. A function whose result is not void has to end in a return, and
this is checked when its body has been walked through; what its result is does not change from the
beginning of the walk to its end. A body that ends in a return has no trace that comes to its end,
and so every walk through its flow graph that cannot go on has come to a return.
-/

namespace Sema

open Sema.Action Context

/-! ### Bodies that end in a return -/

lemma Stmts.traces_of_last : ∀ {ss : List Stmt}, ss.getLast?.any Stmt.isReturn = true →
    Stmts.traces ss false = 0
  | [], h => by cases h
  | [s], h => by
    cases s with
    | ret node value => simp [Stmts.traces, Stmt.traces]
    | expression | var | branch | loop | block => cases h
  | s :: s' :: rest, h => by
    have hrest : Stmts.traces (s' :: rest) false = 0 :=
      Stmts.traces_of_last (by rwa [List.getLast?_cons_cons] at h)
    rw [Stmts.traces, hrest, mul_zero, if_neg Bool.false_ne_true, zero_add]

lemma Block.traces_of_endsWithReturn : ∀ {b : Block}, b.endsWithReturn = true → b.traces false = 0
  | ⟨_, _⟩, h => Stmts.traces_of_last h

/-- A block that can be reached is reached by a walk. -/
lemma Path.exists_of_reaches {b : Nat → FlowBlock} {i j : Nat}
    (h : Relation.ReflTransGen (fun i k => k ∈ (b i).successors) i j) : ∃ ids, Path b i ids j := by
  induction h using Relation.ReflTransGen.head_induction_on with
  | refl => exact ⟨_, .here j⟩
  | head hk _ ih =>
    obtain ⟨ids, hw⟩ := ih
    exact ⟨_, .step hk hw⟩

/-- **No way around the return.** If the body of a function ends in a return, whatever block of its
graph can be reached and leads nowhere returns. -/
theorem FunctionDecl.returns_of_endsWithReturn {f : FunctionDecl}
    (hf : f.body.endsWithReturn = true) {j : Nat}
    (hj : Relation.ReflTransGen (fun i k => k ∈ f.flowGraph.successors i) 0 j)
    (hend : f.flowGraph.successors j = []) : (f.flowGraph.block j).returns = true := by
  have h := Lowering.lowers_block f.body Lowering.ready_start
  obtain ⟨ids, hw⟩ := Path.exists_of_reaches hj
  rcases (h.complete hw).1 hend with rfl | hr
  · -- no walk comes to the block that is current in the end
    have hends := h.ends 0 Nat.one_pos
    rw [Block.traces_of_endsWithReturn hf, mul_zero] at hends
    have hmem : ids ∈ paths (Lowering.block {} f.body).blockAt 0 _ := hw
    rw [hends] at hmem
    exact absurd hmem (Language.notMem_zero ids)
  · exact hr

/-! ### The graphs that are recorded -/

namespace Context

variable {c : Context}

lemma flow?_setFlow (n m : NodeId) (g : FlowGraph) :
    (c.setFlow n g).flow? m = if m = n then some g else c.flow? m :=
  Table.get?_insert ..

lemma flow?_foldl_of_notMem {n : NodeId} : ∀ {ds : List Decl} {c : Context},
    n ∉ ds.map (·.node.id) → (ds.foldl recordOwnFlow c).flow? n = c.flow? n
  | [], _, _ => rfl
  | d :: rest, c, h => by
    obtain ⟨hne, hrest⟩ := not_or.mp (mt List.mem_cons.mpr h)
    rw [List.foldl_cons, flow?_foldl_of_notMem hrest]
    cases d with
    | function f => exact (flow?_setFlow ..).trans (if_neg hne)
    | object | var | enum | foreign => rfl

/-- If all declarations have numbers of their own, each function has its graph. -/
lemma flow?_recordFlows {ds : List Decl} {f : FunctionDecl}
    (hnd : ((Decl.allOf ds).map (·.node.id)).Nodup) (hf : .function f ∈ Decl.allOf ds) :
    (c.recordFlows ds).flow? f.id = some f.flowGraph := by
  obtain ⟨before, after, heq⟩ := List.append_of_mem hf
  rw [heq, List.map_append, List.map_cons] at hnd
  have hafter : f.id ∉ after.map (·.node.id) :=
    (List.nodup_cons.mp (List.nodup_append'.mp hnd).2.1).1
  rw [recordFlows_eq_foldl, heq, List.foldl_append, List.foldl_cons, flow?_foldl_of_notMem hafter]
  exact (flow?_setFlow ..).trans (if_pos rfl)

end Context

/-! ### The results of functions -/

namespace Groundwork

variable {G : Groundwork} {n : NodeId} {r : Slot}

/-- The node is that of a function with the result `r`, and no variable owns one of the two
slots. -/
structure Returns (G : Groundwork) (n : NodeId) (r : Slot) : Prop where
  key : n ∈ G.layout.map Prod.fst
  shape : ∃ x ps, G.start.nodeType? n = some x ∧ G.start.types.get x = .function r ps ∧
    ∀ v ∈ G.vars, ¬ G.Owns v x
  lt : r < G.size
  result : ∀ v ∈ G.vars, ¬ G.Owns v r

end Groundwork

namespace Resolving.Footing

variable {G : Groundwork} {s : Resolving} {n : NodeId} {r : Slot}

/-- A function has the type that it began with, -/
lemma shape?_function (h : Footing G s) (hr : G.r) (hn : G.Returns n r) :
    ∃ ps, s.shape? n = some (.function r ps) := by
  obtain ⟨x, ps, hx, hget, hown⟩ := hn.shape
  have hstays := h.stays hr (G.arranged.lt n x hn.key hx) hown
  have heq : s.types.get x = .function r ps :=
    (hstays.eq_of_plain (by rw [hget]; rfl)).trans hget
  refine ⟨ps, ?_⟩
  rw [shape?, h.nodes n hn.key, hx, Option.map_some, heq]

/-- and its result is void or not as it was. -/
lemma isVoid_result (h : Footing G s) (hr : G.r) (hn : G.Returns n r) :
    s.types.get r = .void ↔ G.start.types.get r = .void := by
  have hstays := h.stays hr hn.lt hn.result
  constructor <;> intro hvoid
  · exact (hstays.symm.eq_of_plain (by rw [hvoid]; rfl)).trans hvoid
  · exact (hstays.eq_of_plain (by rw [hvoid]; rfl)).trans hvoid

end Resolving.Footing

namespace Resolve.Starts

variable {p : Program} {plan : Plan} {s : Resolving} {f : FunctionDecl}

/-- What the walk finds when it begins, whether or not names are distinct. -/
def groundwork (h : Starts p plan s) (hp : p.Numbered) : Groundwork :=
  h.toBegins.groundwork hp True fun _ => h.named

/-- Before the walk all declarations are still to come. -/
lemma reached (h : Starts p plan s) (hp : p.Numbered) :
    Resolving.Reached (h.groundwork hp) p.allDecls s :=
  h.toBegins.reached hp fun _ => h.named

/-- Every function has its type when the walk begins. -/
lemma returns (h : Starts p plan s) (hp : p.Numbered) (hf : .function f ∈ p.allDecls) :
    ∃ r, (h.groundwork hp).Returns f.id r := by
  have hkey : ∀ n ∈ (Decl.function f).signature, n ∈ (h.groundwork hp).layout.map Prod.fst := by
    intro n hn
    change n ∈ p.layout.map Prod.fst
    rw [Program.layout_fst]
    exact List.mem_flatMap.mpr ⟨_, hf, hn⟩
  have hvar : ∀ n ∈ (Decl.function f).signature, ∀ v ∈ (h.groundwork hp).vars,
      n ∉ v.id :: TypeExpr.nodes? v.type := fun n hn v hv hm =>
    hp.signatures_apart hf (Program.mem_variables.mp hv) (by simp) hn hm
  obtain ⟨x, hx, -, r, ps, hresult, -, hget⟩ := h.heads _
    (List.mem_flatMap.mpr ⟨_, hf, List.mem_singleton_self _⟩)
  have hself : f.id ∈ (Decl.function f).signature := List.mem_cons_self
  have hout : r < (h.groundwork hp).size ∧
      ∀ v ∈ (h.groundwork hp).vars, ¬ (h.groundwork hp).Owns v r := by
    rcases htype : f.returns with _ | type
    · -- without an annotation the result has a slot that no node has
      rw [htype] at hresult
      obtain ⟨hvoid, hfree⟩ := hresult
      refine ⟨Nat.not_le.mp fun hle => ?_, ?_⟩
      · cases hvoid.symm.trans (TypeStore.get_eq_unknown _ hle)
      · rintro v hv ⟨n, hn, hnr, -⟩
        exact hfree n ((h.groundwork hp).key hv hn) hnr
    · rw [htype] at hresult
      have hmem : type.node.id ∈ (Decl.function f).signature := by
        rw [Decl.signature, htype]
        exact List.mem_cons_of_mem _ (List.mem_append_right _ type.node_mem_nodes)
      exact ⟨(h.groundwork hp).arranged.lt _ r (hkey _ hmem) hresult,
        (h.groundwork hp).not_owns (hkey _ hmem) (hvar _ hmem) hresult⟩
  exact ⟨r, hkey _ hself,
    ⟨x, ps, hx, hget, (h.groundwork hp).not_owns (hkey _ hself) (hvar _ hself) hx⟩, hout.1, hout.2⟩

end Resolve.Starts

/-! ### The walk over declarations -/

namespace Resolve

open Resolving

variable {G : Groundwork} {f : FunctionDecl} {r : Slot} {c c' : Context}

lemma ends_of_checkReturns {scope : Option ScopeId} {ps : List (String × Slot)}
    (hf : c.shape? f.id = some (.function r ps)) (h : Runs (checkReturns f scope) c () c') :
    c.types.get r = .void ∨ f.body.endsWithReturn = true := by
  simp only [checkReturns, runs_bind, runs_get] at h
  obtain ⟨_, _, ⟨rfl, rfl⟩, h⟩ := h
  rw [hf] at h
  dsimp only at h
  split at h
  · next hvoid =>
    left
    revert hvoid
    cases c.types.get r <;> simp [Shape.isVoid]
  · right
    rw [runs_refuse] at h
    obtain ⟨-, h⟩ := h
    split at h
    · exact absurd h runs_fail
    · next hends => simpa using hends

/-- A function with a result ends in a return. -/
lemma ends_of_checked (hr : G.r) (hf : G.Returns f.id r) (h : Checked G f) :
    G.start.types.get r = .void ∨ f.body.endsWithReturn = true := by
  obtain ⟨s, scope, hs, h⟩ := h
  obtain ⟨ps, hshape⟩ := hs.shape?_function hr hf
  rw [← hs.isVoid_result hr hf]
  exact ends_of_checkReturns hshape h

end Resolve

namespace Analysis

variable {p : Program} {a : Analysis}

/-- **Control never falls off the end of a function with a result.** In an accepted program every
function and method, however deep in classes, has its flow graph recorded; and if its result is not
void, every block that can be reached from the entry and leads nowhere ends in a return. -/
theorem control_reaches_return (hp : p.FullyNumbered) (h : Analysis.standard p = .ok a) :
    ∀ f, .function f ∈ a.program.allDecls →
      a.context.flow? f.id = some f.flowGraph ∧
      ∃ r ps, a.context.shape? f.id = some (.function r ps) ∧
        (a.context.types.get r ≠ .void →
          ∀ j, Relation.ReflTransGen (fun i k => k ∈ f.flowGraph.successors i) 0 j →
            f.flowGraph.successors j = [] → (f.flowGraph.block j).returns = true) := by
  obtain ⟨c1, c2, hacc⟩ := accepts_of_standard h
  have hnum : a.program.FullyNumbered := hp.hoist.withEntryPoint hacc.arranged
  intro f hf
  refine ⟨?_, ?_⟩
  · rw [hacc.flows]
    exact flow?_recordFlows (List.nodup_cons.mp hnum.ids).2 hf
  obtain ⟨plan, s, s', hstarts, -, hdecls, rfl⟩ :=
    Resolve.starts_of_program hnum hacc.collect hacc.resolve
  obtain ⟨g, hg⟩ := hacc.context
  have hwalked : Resolving.Walked (hstarts.groundwork hnum.toNumbered) a.program.allDecls s s' :=
    hstarts.walked hnum.toNumbered (fun _ => hstarts.named) hdecls
  have hfooting := hwalked.advances.footing
  obtain ⟨r, hr⟩ := hstarts.returns hnum.toNumbered hf
  obtain ⟨ps, hshape⟩ := hfooting.shape?_function trivial hr
  rw [hg]
  refine ⟨r, ps, hshape, fun hvoid j hj hend => ?_⟩
  rcases Resolve.ends_of_checked trivial hr (hwalked.checked f hf) with hstart | hends
  · exact absurd ((hfooting.isVoid_result trivial hr).mpr hstart) hvoid
  · exact f.returns_of_endsWithReturn hends hj hend

/-- A function that returns early, in a conditional and in a loop, a method of a class in a class,
and a statement outside of any function. -/
def earlyReturns : Program :=
  (StateT.run (m := Id) (do
    let b ← Draft.parameter "b" (← Draft.namedType "Bool" [])
    let one ← Draft.returnStmt (some (← Draft.literal (.integer "1")))
    let branch ← Draft.ifStmt (← Draft.identifier "b") [one] none
    let two ← Draft.returnStmt (some (← Draft.literal (.integer "2")))
    let loop ← Draft.whileStmt (← Draft.identifier "b") [two]
    let three ← Draft.returnStmt (some (← Draft.literal (.integer "3")))
    let f ← Draft.functionDecl "f" [b] (some (← Draft.namedType "Int" [])) [branch, loop, three]
    let four ← Draft.returnStmt (some (← Draft.literal (.integer "4")))
    let m ← Draft.functionDecl "m" [] (some (← Draft.namedType "Int" [])) [four]
    let inner ← Draft.classDecl "Inner" none [.function m]
    let outer ← Draft.classDecl "Outer" none [.object inner]
    let top ← Draft.expressionStmt (← Draft.literal (.integer "5"))
    Draft.program [.object outer, .function f] [top]) {}).1

/-- The functions of an analysed program, with the types of their results. -/
def results (a : Analysis) : List (String × Shape) :=
  a.program.allDecls.filterMap fun
    | .function f => match a.context.shape? f.id with
      | some (.function r _) => some (f.name.name, a.context.types.get r)
      | _ => none
    | _ => none

theorem control_reaches_return_earlyReturns : ∃ a, Analysis.standard earlyReturns = .ok a ∧
    earlyReturns.FullyNumbered ∧
    a.results = [("m", .number .int), ("f", .number .int), ("main", .void)] ∧
    ∀ f, .function f ∈ a.program.allDecls →
      a.context.flow? f.id = some f.flowGraph ∧
      ∃ r ps, a.context.shape? f.id = some (.function r ps) ∧
        (a.context.types.get r ≠ .void →
          ∀ j, Relation.ReflTransGen (fun i k => k ∈ f.flowGraph.successors i) 0 j →
            f.flowGraph.successors j = [] → (f.flowGraph.block j).returns = true) := by
  have hp : earlyReturns.FullyNumbered :=
    ⟨⟨by decide +kernel, by decide +kernel⟩, by decide +kernel, by decide +kernel⟩
  obtain ⟨a, ha, hresults⟩ := exists_of_map_eq (p := earlyReturns) (f := results)
    (y := [("m", .number .int), ("f", .number .int), ("main", .void)]) (by decide +kernel)
  exact ⟨a, ha, hp, hresults, control_reaches_return hp ha⟩

end Analysis

end Sema
