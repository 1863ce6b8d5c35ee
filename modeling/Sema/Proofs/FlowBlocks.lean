import Sema.Proofs.Traces
import Sema.Syntax.Describe

/-!
The blocks of a flow graph. Lowering deals the statements of a body out to the blocks, each of them
once; a block that returns ends in a return and leads nowhere, every other block leads to at most
two blocks, which are blocks of the graph.

What carries the proof is the list of the statements that stand in each block so far. Edges are
drawn from blocks that have at most one successor yet: from an open end, which has none, or from
the fork of a conditional and the header of a loop, which lead to one branch by then.
-/

namespace Sema

variable {parts : List (List Stmt)}

/-! ### The statements of a body -/

mutual

/-- The statements in a statement, itself included, that are not blocks. -/
def Stmt.steps : Stmt → List Stmt
  | .expression node value => [.expression node value]
  | .var decl => [.var decl]
  | .ret node value => [.ret node value]
  | .branch node condition yes none => .branch node condition yes none :: Block.steps yes
  | .branch node condition yes (some no) =>
    .branch node condition yes (some no) :: (Block.steps yes ++ Block.steps no)
  | .loop node condition body => .loop node condition body :: Block.steps body
  | .block b => Block.steps b

def Stmts.steps : List Stmt → List Stmt
  | [] => []
  | s :: rest => Stmt.steps s ++ Stmts.steps rest

def Block.steps : Block → List Stmt
  | ⟨_, statements⟩ => Stmts.steps statements

end

/-- The block stands for the statements `part`, and where it returns, the last of them does. -/
structure FlowBlock.Holds (b : FlowBlock) (part : List Stmt) : Prop where
  statements : b.statements = part.map (·.node.id)
  ends : b.returns = true → ∃ s, part.getLast? = some s ∧ s.isReturn = true

lemma FlowBlock.flatMap_statements {bs : List FlowBlock}
    (h : List.Forall₂ FlowBlock.Holds bs parts) :
    bs.flatMap (·.statements) = parts.flatten.map (·.node.id) := by
  induction h with
  | nil => rfl
  | cons hb _ ih =>
    simp only [List.flatMap_cons, hb.statements, ih, List.flatten_cons, List.map_append]

/-! ### Dealing out statements -/

/-- One more statement in one of the parts. -/
lemma flatten_modify_perm {i : Nat} (h : i < parts.length) (s : Stmt) :
    (parts.modify i (· ++ [s])).flatten.Perm (parts.flatten ++ [s]) := by
  induction parts generalizing i with
  | nil => simp at h
  | cons part parts ih =>
    cases i with
    | zero =>
      simp only [List.modify_zero_cons, List.flatten_cons, List.append_assoc]
      exact List.perm_append_comm.append_left part
    | succ i =>
      simp only [List.modify_succ_cons, List.flatten_cons, List.append_assoc]
      exact (ih (by simpa using h)).append_left part

namespace Lowering

variable {g : Lowering} {parts : List (List Stmt)} {p q : Nat}

/-- The blocks so far, with the statements that were dealt out to them. -/
structure Dealt (g : Lowering) (parts : List (List Stmt)) : Prop where
  size : parts.length = g.blocks.size
  holds : ∀ i, (g.blockAt i).Holds (parts.getD i [])
  few : ∀ i, (g.blockAt i).successors.length ≤ 2
  nodup : ∀ i, (g.blockAt i).successors.Nodup
  closed : ∀ i, (g.blockAt i).returns = true → (g.blockAt i).successors = []

lemma Dealt.startBlock (h : g.Dealt parts) : g.startBlock.Dealt (parts ++ [[]]) where
  size := by simp [h.size]
  holds i := by
    have hpart : (parts ++ [[]]).getD i [] = parts.getD i [] := by
      simp only [List.getD_eq_getElem?_getD, List.getElem?_append]
      split
      · rfl
      · rw [List.getElem?_eq_none (l := parts) (by omega)]
        cases i - parts.length <;> rfl
    rw [blockAt_startBlock, hpart]
    exact h.holds i
  few i := by simpa using h.few i
  nodup i := by simpa using h.nodup i
  closed i := by simpa using h.closed i

/-- An edge from a block that has at most one successor. -/
lemma Dealt.edge (h : g.Dealt parts) (hp : p < g.blocks.size)
    (hone : (g.blockAt p).successors.length ≤ 1) : (g.edge p q).Dealt parts where
  size := by rw [size_edge, h.size]
  holds i := by
    have hi := h.holds i
    refine ⟨?_, ?_⟩
    · rw [statements_edge hp, hi.statements]
    · rw [returns_edge hp]
      exact hi.ends
  few i := by
    rw [blockAt_edge hp]
    split_ifs with hip
    · exact h.few i
    · subst hip
      simpa using hone
    · exact h.few i
  nodup i := by
    rw [blockAt_edge hp]
    split_ifs with hip hdrawn
    · exact h.nodup i
    · have hnew : q ∉ (g.blockAt i).successors := by
        intro hq
        simp [hq] at hdrawn
      exact List.nodup_append.2 ⟨h.nodup i, List.nodup_singleton q, by
        rintro a ha b hb rfl
        exact hnew (List.mem_singleton.1 hb ▸ ha)⟩
    · exact h.nodup i
  closed i hret := by
    rw [returns_edge hp] at hret
    rw [blockAt_edge hp, hret]
    simpa using h.closed i hret

lemma Dealt.branchTo (h : g.Dealt parts) (hp : p < g.blocks.size)
    (hone : (g.blockAt p).successors.length ≤ 1) : (g.branchTo p).Dealt (parts ++ [[]]) := by
  rw [branchTo_eq]
  exact h.startBlock.edge (by simp; omega) (by simpa using hone)

section Emit

variable (hg : g.Ready) (h : g.Dealt parts)

include hg h

lemma Dealt.emit (s : Stmt) :
    (g.emit s.node.id).Dealt (parts.modify g.current (· ++ [s])) where
  size := by simp [Lowering.emit, h.size]
  holds i := by
    have hin : g.current < parts.length := by rw [h.size]; exact hg.inside
    have hi := h.holds i
    rw [blockAt_emit hg, List.getD_eq_getElem?_getD, List.getElem?_modify]
    split_ifs with hic hci hci
    · subst hic
      rw [List.getElem?_eq_getElem hin]
      refine ⟨?_, fun hret => ?_⟩
      · simpa [List.getD_eq_getElem?_getD, hin] using hi.statements
      · simp [hg.unreturned] at hret
    · exact absurd hic.symm hci
    · exact absurd hci.symm hic
    · simpa [List.getD_eq_getElem?_getD] using hi
  few i := by
    rw [blockAt_emit hg]
    split <;> exact h.few i
  nodup i := by
    rw [blockAt_emit hg]
    split <;> exact h.nodup i
  closed i := by
    rw [blockAt_emit hg]
    split <;> exact h.closed i

/-- A return closes the current block, which nothing leads out of. -/
lemma Dealt.finish (node : Node) (value : Option Expr) :
    ((g.emit node.id).finish).Dealt (parts.modify g.current (· ++ [.ret node value])) := by
  have hin : g.current < parts.length := by rw [h.size]; exact hg.inside
  have hemit : (g.emit node.id).Dealt (parts.modify g.current (· ++ [.ret node value])) :=
    h.emit hg (.ret node value)
  have hready := ready_emit hg node.id
  have hblock : ∀ x, (g.emit node.id).finish.blockAt x = if x = g.current then
      { (g.emit node.id).blockAt x with returns := true } else (g.emit node.id).blockAt x :=
    fun x => blockAt_modify hready.inside _ x
  refine ⟨by simpa [Lowering.finish] using hemit.size, fun i => ?_, fun i => ?_, fun i => ?_,
    fun i hret => ?_⟩
  · rw [hblock]
    split_ifs with hic
    · refine ⟨(hemit.holds i).statements, fun _ => ⟨.ret node value, ?_, rfl⟩⟩
      subst hic
      simp [List.getD_eq_getElem?_getD, hin]
    · exact hemit.holds i
  · rw [hblock]
    split <;> exact hemit.few i
  · rw [hblock]
    split <;> exact hemit.nodup i
  · rw [hblock] at hret ⊢
    split_ifs at hret ⊢ with hic
    · subst hic
      exact hready.sink
    · exact hemit.closed i hret

end Emit

/-- The statements `ss` can be dealt out to the blocks so far. -/
def Deals (g : Lowering) (ss : List Stmt) : Prop :=
  ∃ parts, g.Dealt parts ∧ parts.flatten.Perm ss

variable {ss : List Stmt}

lemma Deals.edge (h : g.Deals ss) (hp : p < g.blocks.size)
    (hone : (g.blockAt p).successors.length ≤ 1) : (g.edge p q).Deals ss := by
  obtain ⟨parts, hparts, hperm⟩ := h
  exact ⟨parts, hparts.edge hp hone, hperm⟩

lemma Deals.branchTo (h : g.Deals ss) (hp : p < g.blocks.size)
    (hone : (g.blockAt p).successors.length ≤ 1) : (g.branchTo p).Deals ss := by
  obtain ⟨parts, hparts, hperm⟩ := h
  exact ⟨_, hparts.branchTo hp hone, by simpa using hperm⟩

lemma Deals.emit (h : g.Deals ss) (hg : g.Ready) (s : Stmt) :
    (g.emit s.node.id).Deals (ss ++ [s]) := by
  obtain ⟨parts, hparts, hperm⟩ := h
  have hin : g.current < parts.length := by rw [hparts.size]; exact hg.inside
  exact ⟨_, hparts.emit hg s, (flatten_modify_perm hin s).trans (hperm.append_right [s])⟩

lemma Deals.ret (h : g.Deals ss) (hg : g.Ready) (node : Node) (value : Option Expr) :
    (g.emit node.id).finish.startBlock.Deals (ss ++ [.ret node value]) := by
  obtain ⟨parts, hparts, hperm⟩ := h
  have hin : g.current < parts.length := by rw [hparts.size]; exact hg.inside
  refine ⟨_, (hparts.finish hg node value).startBlock, ?_⟩
  simpa using (flatten_modify_perm hin (.ret node value)).trans (hperm.append_right _)

/-! ### Bodies -/

/-- A branch behind `p` adds one successor to it. -/
lemma length_successors_arm (hg : g.InRange) (hp : p < g.blocks.size)
    (hr : (g.blockAt p).returns = false) (b : Block) :
    (((g.branchTo p).block b).blockAt p).successors.length ≤
      (g.blockAt p).successors.length + 1 := by
  have hin : p < (g.branchTo p).blocks.size := by rw [size_branchTo]; omega
  rw [(lowers_block b (ready_branchTo hg hp hr)).frame p hin hp.ne, branchTo_eq,
    blockAt_edge (hp.trans (by simp)), blockAt_startBlock]
  split_ifs <;> simp

/-- The block where two different open ends meet. -/
lemma Deals.join (h : g.Deals ss) (hp : p < g.blocks.size) (hq : q < g.blocks.size) (hne : q ≠ p)
    (hone : (g.blockAt p).successors.length ≤ 1) (hone' : (g.blockAt q).successors.length ≤ 1) :
    ((g.branchTo p).edge q (g.branchTo p).current).Deals ss := by
  refine (h.branchTo hp hone).edge (by rw [size_branchTo]; omega) ?_
  rwa [blockAt_branchTo_of_ne hp hne]

lemma Ready.open (hg : g.Ready) : (g.blockAt g.current).successors.length ≤ 1 := by
  simp [hg.sink]

mutual

theorem deals_stmt : ∀ (s : Stmt) {g : Lowering} {ss : List Stmt}, g.Ready → g.Deals ss →
    (g.stmt s).Deals (ss ++ s.steps)
  | .expression node value, _, _, hg, h => by
    rw [stmt, Stmt.steps]
    exact h.emit hg (.expression node value)
  | .var decl, _, _, hg, h => by
    rw [stmt, Stmt.steps]
    exact h.emit hg (.var decl)
  | .ret node value, _, _, hg, h => by
    rw [stmt, Stmt.steps]
    exact h.ret hg node value
  | .branch node condition yes none, g, ss, hg, h => by
    have hemit := ready_emit hg node.id
    have hopen := ready_branchTo hemit.range hemit.inside hemit.unreturned
    have hyes := (lowers_block yes hopen).arm hemit.range hemit.inside hemit.unreturned
    have hdealt := deals_block yes hopen
      ((h.emit hg (.branch node condition yes none)).branchTo hemit.inside hemit.open)
    have hfork := length_successors_arm hemit.range hemit.inside hemit.unreturned yes
    rw [hemit.sink] at hfork
    have hne := hemit.inside.trans_le hyes.moves
    simp only [stmt, Stmt.steps]
    simpa only [List.append_assoc, List.cons_append, List.nil_append] using
      hdealt.join hyes.ready.inside
      (hemit.inside.trans hyes.grows) hne.ne hyes.ready.open hfork
  | .branch node condition yes (some no), g, ss, hg, h => by
    have hemit := ready_emit hg node.id
    have hopen := ready_branchTo hemit.range hemit.inside hemit.unreturned
    have hyes := (lowers_block yes hopen).arm hemit.range hemit.inside hemit.unreturned
    have hdealt := deals_block yes hopen
      ((h.emit hg (.branch node condition yes (some no))).branchTo hemit.inside hemit.open)
    have hfork := length_successors_arm hemit.range hemit.inside hemit.unreturned yes
    rw [hemit.sink] at hfork
    have hne := hemit.inside.trans_le hyes.moves
    have hin := hemit.inside.trans hyes.grows
    -- the other branch behind the same fork, which leaves the end of the first one open
    have hopen' := ready_branchTo hyes.ready.range hin hyes.unreturned
    have hno := (lowers_block no hopen').arm hyes.ready.range hin hyes.unreturned
    have hdealt' := deals_block no hopen' (hdealt.branchTo hin hfork)
    have hend := hyes.ready.open
    rw [← hno.frame _ hyes.ready.inside hne.ne'] at hend
    have hne' := hyes.ready.inside.trans_le hno.moves
    simp only [stmt, Stmt.steps]
    simpa only [List.append_assoc, List.cons_append, List.nil_append] using
      hdealt'.join (hyes.ready.inside.trans hno.grows)
      hno.ready.inside hne'.ne' hend hno.ready.open
  | .loop node condition body, g, ss, hg, h => by
    have hready := ready_branchTo hg.range hg.inside hg.unreturned
    have hheader := ready_emit hready node.id
    have hopen := ready_branchTo hheader.range hheader.inside hheader.unreturned
    have hbody := (lowers_block body hopen).arm hheader.range hheader.inside hheader.unreturned
    have hemit := (h.branchTo hg.inside hg.open).emit hready (.loop node condition body)
    have hdealt := deals_block body hopen (hemit.branchTo hheader.inside hheader.open)
    have htest := length_successors_arm hheader.range hheader.inside hheader.unreturned body
    rw [hheader.sink] at htest
    have hne := hheader.inside.trans_le hbody.moves
    -- back to the test, and from there on to what follows the loop
    have hback := hdealt.edge (q := ((g.branchTo g.current).emit node.id).current)
      hbody.ready.inside hbody.ready.open
    have hdone := hback.branchTo (by rw [size_edge]; exact hheader.inside.trans hbody.grows)
      (by rwa [blockAt_edge_of_ne hbody.ready.inside hne.ne])
    simp only [stmt, Stmt.steps]
    simpa only [List.append_assoc, List.cons_append, List.nil_append] using hdone
  | .block b, _, _, hg, h => by
    rw [stmt, Stmt.steps]
    exact deals_block b hg h

theorem deals_stmts : ∀ (rest : List Stmt) {g : Lowering} {ss : List Stmt}, g.Ready → g.Deals ss →
    (g.stmts rest).Deals (ss ++ Stmts.steps rest)
  | [], _, _, _, h => by
    rwa [stmts, Stmts.steps, List.append_nil]
  | s :: rest, _, _, hg, h => by
    have hrest := deals_stmts rest (lowers_stmt s hg).ready (deals_stmt s hg h)
    rwa [stmts, Stmts.steps, ← List.append_assoc]

theorem deals_block : ∀ (b : Block) {g : Lowering} {ss : List Stmt}, g.Ready → g.Deals ss →
    (g.block b).Deals (ss ++ b.steps)
  | ⟨_, statements⟩, _, _, hg, h => by
    rw [block, Block.steps]
    exact deals_stmts statements hg h

end

lemma deals_start : Deals {} [] := by
  have hblock : ∀ i, blockAt {} i = {} := fun i => by cases i <;> rfl
  refine ⟨[[]], ⟨rfl, fun i => ?_, fun i => ?_, fun i => ?_, fun i => ?_⟩, List.Perm.refl _⟩
  · rw [hblock, show List.getD [[]] i [] = ([] : List Stmt) by cases i <;> rfl]
    exact ⟨rfl, fun hret => absurd hret (by simp)⟩
  all_goals simp [hblock]

end Lowering

/-! ### The graph of a function -/

/-- **The shape of a flow graph.** Its edges lead to its own blocks, at most two different ones from
each block and none from a block that returns. The statements of the body that are not blocks are
dealt out to the blocks, each of them once, and a block that returns ends in one of the returns. -/
theorem FunctionDecl.flowGraph_shape (f : FunctionDecl) :
    0 < f.flowGraph.blocks.size ∧
    (∀ b ∈ f.flowGraph.blocks,
      (∀ k ∈ b.successors, k < f.flowGraph.blocks.size) ∧ b.successors.length ≤ 2 ∧
      b.successors.Nodup ∧ (b.returns = true → b.successors = [])) ∧
    (∃ parts : List (List Stmt),
      List.Forall₂ FlowBlock.Holds f.flowGraph.blocks.toList parts ∧
      parts.flatten.Perm f.body.steps) ∧
    (f.flowGraph.blocks.toList.flatMap (·.statements)).Perm (f.body.steps.map (·.node.id)) := by
  have hlowers := Lowering.lowers_block f.body Lowering.ready_start
  obtain ⟨parts, hparts, hperm⟩ := Lowering.deals_block f.body Lowering.ready_start
    Lowering.deals_start
  rw [List.nil_append] at hperm
  have hblock : ∀ i (hi : i < f.flowGraph.blocks.size),
      (Lowering.block {} f.body).blockAt i = f.flowGraph.blocks[i] := fun i hi => by
    change f.flowGraph.blocks[i]?.getD {} = _
    rw [Array.getElem?_eq_getElem hi, Option.getD_some]
  have hholds : List.Forall₂ FlowBlock.Holds f.flowGraph.blocks.toList parts := by
    refine List.forall₂_iff_get.2 ⟨hparts.size.symm, fun i hi hi' => ?_⟩
    have hi := hparts.holds i
    rw [hblock i (hparts.size ▸ hi'), List.getD_eq_getElem?_getD, List.getElem?_eq_getElem hi',
      Option.getD_some] at hi
    exact hi
  refine ⟨Nat.one_pos.trans_le hlowers.grows, fun b hb => ?_, ⟨parts, hholds, hperm⟩, ?_⟩
  · obtain ⟨i, hi, rfl⟩ := Array.mem_iff_getElem.1 hb
    rw [← hblock i hi]
    exact ⟨hlowers.ready.range i, hparts.few i, hparts.nodup i, hparts.closed i⟩
  · rw [FlowBlock.flatMap_statements hholds]
    exact hperm.map _

end Sema
