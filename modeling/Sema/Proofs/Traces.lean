import Mathlib.Computability.Language
import Sema.Flow.Graph

/-!
The flow graph of a function runs exactly what its body runs.

A trace lists the statements that a run meets, in order, and says whether the run ends in a return.
The traces of a body are read off its structure: conditions may go either way. The traces of a
graph are those of its complete walks. Lowering one more statement leaves the walks to the blocks
that are done as they are and appends the traces of the statement to the walks that reach the
current block; a loop is a back edge, and its walks solve the equation of Arden's lemma.
-/

namespace Sema

open scoped Computability

/-! ### What a body runs -/

/-- The one trace that consists of a single statement. -/
def onlyTrace (id : NodeId) : Language NodeId :=
  {[id]}

mutual

/-- The traces of a statement, those that end in a return (`true`) or those that come to its end. -/
def Stmt.traces : Stmt → Bool → Language NodeId
  | .expression node _, returned => if returned then 0 else onlyTrace node.id
  | .var decl, returned => if returned then 0 else onlyTrace decl.id
  | .ret node _, returned => if returned then onlyTrace node.id else 0
  | .branch node _ yes none, returned =>
    onlyTrace node.id * (Block.traces yes returned + if returned then 0 else 1)
  | .branch node _ yes (some no), returned =>
    onlyTrace node.id * (Block.traces yes returned + Block.traces no returned)
  | .loop node _ body, returned =>
    (onlyTrace node.id * Block.traces body false)∗ *
      (onlyTrace node.id * if returned then Block.traces body true else 1)
  | .block b, returned => Block.traces b returned

/-- Statements run one after the other until one returns. -/
def Stmts.traces : List Stmt → Bool → Language NodeId
  | [], returned => if returned then 0 else 1
  | s :: rest, returned =>
    (if returned then Stmt.traces s true else 0) + Stmt.traces s false * Stmts.traces rest returned

def Block.traces : Block → Bool → Language NodeId
  | ⟨_, statements⟩, returned => Stmts.traces statements returned

end

/-! ### What a graph runs -/

/-- A walk from one block to another, with the statements of every block on it. -/
inductive Path (b : Nat → FlowBlock) : Nat → List NodeId → Nat → Prop
  | here (i : Nat) : Path b i (b i).statements i
  | step {i k j : Nat} {ids : List NodeId} :
    k ∈ (b i).successors → Path b k ids j → Path b i ((b i).statements ++ ids) j

/-- The traces of the complete walks: from the entry to a block without successors. -/
def FlowGraph.traces (g : FlowGraph) (returned : Bool) : Language NodeId :=
  {ids | ∃ j, Path g.block 0 ids j ∧ g.successors j = [] ∧ (g.block j).returns = returned}

/-! ### Walks when a graph changes -/

section Walks

variable {b b' : Nat → FlowBlock} {h p : Nat}

/-- The walks between two blocks. -/
def paths (b : Nat → FlowBlock) (i j : Nat) : Language NodeId :=
  {ids | Path b i ids j}

/-- The walks that end in a block that returns. -/
def returning (b : Nat → FlowBlock) (i : Nat) : Language NodeId :=
  {ids | ∃ j, ids ∈ paths b i j ∧ (b j).returns = true}

lemma paths_of_sink (h : (b p).successors = []) (j : Nat) :
    paths b p j = if j = p then {(b p).statements} else 0 := by
  ext ids
  constructor
  · intro hp
    cases hp with
    | here => exact if_pos rfl ▸ rfl
    | step hk _ => simp [h] at hk
  · split
    · rename_i hj
      subst hj
      rintro rfl
      exact Path.here j
    · exact False.elim

lemma paths_of_empty (h : b p = {}) (j : Nat) : paths b p j = if j = p then 1 else 0 := by
  rw [paths_of_sink (by rw [h]), h]
  rfl

lemma returning_of_sink (h : (b p).successors = []) (hr : (b p).returns = false) :
    returning b p = 0 := by
  ext ids
  constructor
  · rintro ⟨j, hj, hret⟩
    rw [paths_of_sink h] at hj
    split at hj
    · rename_i hjp
      subst hjp
      simp [hr] at hret
    · exact hj
  · exact False.elim

/-- A step may follow every walk to its source. -/
lemma Path.trans {i j : Nat} {u v : List NodeId} (hu : Path b i u p) (hh : h ∈ (b p).successors)
    (hv : Path b h v j) : Path b i (u ++ v) j := by
  induction hu with
  | here p => exact Path.step hh hv
  | step hk _ ih =>
    rw [List.append_assoc]
    exact Path.step hk (ih hh)

/-- **One more edge.** A walk does without it, or comes to its source and goes on behind it. -/
lemma paths_link (hs : ∀ x, (b' x).statements = (b x).statements)
    (hk : ∀ x k, k ∈ (b' x).successors ↔ k ∈ (b x).successors ∨ x = p ∧ k = h) (i j : Nat) :
    paths b' i j = paths b i j + paths b i p * paths b' h j := by
  have hle : ∀ {i j : Nat} {ids : List NodeId}, Path b i ids j → Path b' i ids j := by
    intro i j ids hp
    induction hp with
    | here i => exact hs i ▸ Path.here i
    | step hk' _ ih => exact hs _ ▸ Path.step ((hk _ _).2 (Or.inl hk')) ih
  ext ids
  constructor
  · intro hp
    induction hp with
    | here i => exact Or.inl (hs i ▸ Path.here i)
    | @step i k j ids hk' hp ih =>
      rw [hs]
      rcases (hk i k).1 hk' with hold | ⟨rfl, rfl⟩
      · rcases ih with hl | hr
        · exact Or.inl (Path.step hold hl)
        · obtain ⟨u, hu, v, hv, rfl⟩ := Language.mem_mul.1 hr
          rw [← List.append_assoc]
          exact Or.inr (Language.append_mem_mul (Path.step hold hu) hv)
      · exact Or.inr (Language.append_mem_mul (Path.here i) hp)
  · rintro (hl | hr)
    · exact hle hl
    · obtain ⟨u, hu, v, hv, rfl⟩ := Language.mem_mul.1 hr
      exact (hle hu).trans ((hk p h).2 (Or.inr ⟨rfl, rfl⟩)) hv

/-- **One more statement** at the end of a block without successors. -/
lemma paths_emit {id : NodeId} (hp : (b p).successors = [])
    (hs : ∀ x, (b' x).statements = if x = p then (b x).statements ++ [id] else (b x).statements)
    (hk : ∀ x, (b' x).successors = (b x).successors) (i j : Nat) :
    paths b' i j = if j = p then paths b i j * onlyTrace id else paths b i j := by
  ext ids
  constructor
  · intro hw
    induction hw with
    | here i =>
      rw [hs]
      split
      · exact Language.append_mem_mul (Path.here i) rfl
      · exact Path.here i
    | @step i k j ids hk' hw ih =>
      rw [hk] at hk'
      have hi : i ≠ p := by
        rintro rfl
        simp [hp] at hk'
      rw [hs, if_neg hi]
      split at ih
      · obtain ⟨u, hu, v, hv, rfl⟩ := Language.mem_mul.1 ih
        rw [if_pos ‹_›, ← List.append_assoc]
        exact Language.append_mem_mul (Path.step hk' hu) hv
      · rw [if_neg ‹_›]
        exact Path.step hk' ih
  · have key : ∀ {i j : Nat} {ids : List NodeId}, Path b i ids j →
        Path b' i (if j = p then ids ++ [id] else ids) j := by
      intro i j ids hw
      induction hw with
      | here i => simpa [hs] using Path.here (b := b') i
      | @step i k j ids hk' hw ih =>
        have hi : i ≠ p := by
          rintro rfl
          simp [hp] at hk'
        have := Path.step (b := b') (i := i) ((hk i).symm ▸ hk') ih
        rw [hs, if_neg hi] at this
        split at this <;> simp_all
    intro hw
    split at hw
    · obtain ⟨u, hu, v, rfl, rfl⟩ := Language.mem_mul.1 hw
      have := key hu
      rwa [if_pos ‹_›] at this
    · have := key hw
      rwa [if_neg ‹_›] at this

lemma paths_congr (hs : ∀ x, (b' x).statements = (b x).statements)
    (hk : ∀ x, (b' x).successors = (b x).successors) (i j : Nat) : paths b' i j = paths b i j := by
  have key : ∀ {b b' : Nat → FlowBlock}, (∀ x, (b' x).statements = (b x).statements) →
      (∀ x, (b' x).successors = (b x).successors) → ∀ {i j : Nat} {ids : List NodeId},
      Path b i ids j → Path b' i ids j := by
    intro b b' hs hk i j ids hw
    induction hw with
    | here i => exact hs i ▸ Path.here i
    | step hm _ ih => exact hs _ ▸ Path.step (hk _ ▸ hm) ih
  ext ids
  exact ⟨key (fun x => (hs x).symm) fun x => (hk x).symm, key hs hk⟩

/-- The returning walks behind one more edge. -/
lemma returning_link (hpaths : ∀ i j, paths b' i j = paths b i j + paths b i p * paths b' h j)
    (hr : ∀ x, (b' x).returns = (b x).returns) (i : Nat) :
    returning b' i = returning b i + paths b i p * returning b' h := by
  ext ids
  constructor
  · rintro ⟨j, hj, hret⟩
    rw [hpaths] at hj
    rcases hj with hl | hr'
    · exact Or.inl ⟨j, hl, hr j ▸ hret⟩
    · obtain ⟨u, hu, v, hv, rfl⟩ := Language.mem_mul.1 hr'
      exact Or.inr (Language.append_mem_mul hu ⟨j, hv, hret⟩)
  · rintro (⟨j, hl, hret⟩ | hr')
    · exact ⟨j, hpaths i j ▸ Or.inl hl, (hr j).trans hret⟩
    · obtain ⟨u, hu, v, ⟨j, hv, hret⟩, rfl⟩ := Language.mem_mul.1 hr'
      exact ⟨j, hpaths i j ▸ Or.inr (Language.append_mem_mul hu hv), hret⟩

end Walks

/-! ### Lowering, step by step -/

namespace Lowering

def blockAt (g : Lowering) (i : Nat) : FlowBlock :=
  g.blocks[i]?.getD {}

variable {g : Lowering} {i j p : Nat} {id : NodeId}

lemma blockAt_of_le (h : g.blocks.size ≤ i) : g.blockAt i = {} := by
  simp [blockAt, h]

lemma blockAt_of_lt (h : i < g.blocks.size) : g.blockAt i = g.blocks[i] := by
  simp [blockAt, h]

@[simp] lemma blockAt_startBlock : g.startBlock.blockAt = g.blockAt := by
  funext i
  simp only [blockAt, startBlock, Array.getElem?_push]
  split
  · simp [*]
  · rfl

@[simp] lemma size_startBlock : g.startBlock.blocks.size = g.blocks.size + 1 := by
  simp [startBlock]

lemma blockAt_modify {f : FlowBlock → FlowBlock} (h : p < g.blocks.size) (c i : Nat) :
    blockAt ⟨g.blocks.modify p f, c⟩ i = if i = p then f (g.blockAt i) else g.blockAt i := by
  simp only [blockAt, Array.getElem?_modify]
  by_cases hi : p = i
  · subst hi
    simp [h]
  · simp [hi, Ne.symm hi]

/-- Every edge stays among the blocks. -/
def InRange (g : Lowering) : Prop :=
  ∀ i k, k ∈ (g.blockAt i).successors → k < g.blocks.size

/-- The current block is open: it has no successors yet and does not return. -/
structure Ready (g : Lowering) : Prop where
  inside : g.current < g.blocks.size
  sink : (g.blockAt g.current).successors = []
  unreturned : (g.blockAt g.current).returns = false
  range : g.InRange

lemma paths_eq_zero (h : g.InRange) (hi : i < g.blocks.size) (hj : g.blocks.size ≤ j) :
    paths g.blockAt i j = 0 := by
  ext ids
  constructor
  · intro hw
    induction hw with
    | here i => omega
    | step hk _ ih => exact ih (h _ _ hk) hj
  · exact False.elim

section Edge

variable {p h : Nat} (hp : p < g.blocks.size) (hr : (g.blockAt p).returns = false)

include hp

lemma blockAt_edge (x : Nat) : (g.edge p h).blockAt x = if x = p then
    if (g.blockAt x).returns || (g.blockAt x).successors.contains h then g.blockAt x
    else { g.blockAt x with successors := (g.blockAt x).successors ++ [h] }
    else g.blockAt x :=
  blockAt_modify hp g.current x

lemma blockAt_edge_of_ne {x : Nat} (hx : x ≠ p) : (g.edge p h).blockAt x = g.blockAt x := by
  rw [blockAt_edge hp, if_neg hx]

lemma statements_edge (x : Nat) :
    ((g.edge p h).blockAt x).statements = (g.blockAt x).statements := by
  rw [blockAt_edge hp]
  split_ifs <;> rfl

lemma returns_edge (x : Nat) : ((g.edge p h).blockAt x).returns = (g.blockAt x).returns := by
  rw [blockAt_edge hp]
  split_ifs <;> rfl

include hr

lemma mem_successors_edge (x k : Nat) : k ∈ ((g.edge p h).blockAt x).successors ↔
    k ∈ (g.blockAt x).successors ∨ x = p ∧ k = h := by
  rw [blockAt_edge hp]
  by_cases hx : x = p
  · subst hx
    by_cases hh : h ∈ (g.blockAt x).successors
    · simp only [hr, List.contains_iff_mem.2 hh, Bool.or_true, if_true, true_and]
      exact ⟨Or.inl, fun hk => hk.elim id fun e => e ▸ hh⟩
    · simp [hr, hh]
  · simp [hx]

lemma paths_edge (i j : Nat) : paths (g.edge p h).blockAt i j =
    paths g.blockAt i j + paths g.blockAt i p * paths (g.edge p h).blockAt h j :=
  paths_link (statements_edge hp) (mem_successors_edge hp hr) i j

lemma returning_edge (i : Nat) : returning (g.edge p h).blockAt i =
    returning g.blockAt i + paths g.blockAt i p * returning (g.edge p h).blockAt h :=
  returning_link (paths_edge hp hr) (returns_edge hp) i

/-- An edge to an empty block makes the walks to its source walks to that block. -/
lemma paths_edge_of_empty (hh : g.blockAt h = {}) (hne : p ≠ h) (i j : Nat) :
    paths (g.edge p h).blockAt i j =
      paths g.blockAt i j + if j = h then paths g.blockAt i p else 0 := by
  have hb : (g.edge p h).blockAt h = {} := by rw [blockAt_edge_of_ne hp hne.symm, hh]
  rw [paths_edge hp hr, paths_of_empty hb, mul_ite, mul_one, mul_zero]

lemma returning_edge_of_empty (hh : g.blockAt h = {}) (hne : p ≠ h) (i : Nat) :
    returning (g.edge p h).blockAt i = returning g.blockAt i := by
  have hb : (g.edge p h).blockAt h = {} := by rw [blockAt_edge_of_ne hp hne.symm, hh]
  have hzero := returning_of_sink (b := (g.edge p h).blockAt) (p := h) (by rw [hb]) (by rw [hb])
  rw [returning_edge hp hr, hzero, mul_zero, add_zero]

/-- A block that is left: it returns, or something follows it. -/
lemma settled_edge (x : Nat)
    (hx : x = p ∨ ((g.blockAt x).returns = true ↔ (g.blockAt x).successors = [])) :
    ((g.edge p h).blockAt x).returns = true ↔ ((g.edge p h).blockAt x).successors = [] := by
  by_cases hxp : x = p
  · subst hxp
    have hmem := (mem_successors_edge (h := h) hp hr x h).2 (Or.inr ⟨rfl, rfl⟩)
    rw [returns_edge hp, hr]
    simp [List.ne_nil_of_mem hmem]
  · rw [blockAt_edge_of_ne hp hxp]
    exact hx.resolve_left hxp

end Edge

/-! A new block behind `p`. -/

section Branch

variable {p : Nat} (hg : g.InRange) (hp : p < g.blocks.size) (hr : (g.blockAt p).returns = false)
  {q : Nat}

lemma branchTo_eq : g.branchTo p = g.startBlock.edge p g.blocks.size := rfl

@[simp] lemma current_branchTo : (g.branchTo p).current = g.blocks.size := rfl

@[simp] lemma size_branchTo : (g.branchTo p).blocks.size = g.blocks.size + 1 := by
  simp [branchTo, edge, startBlock]

@[simp] lemma size_edge : (g.edge p q).blocks.size = g.blocks.size := by
  simp [edge]

@[simp] lemma current_edge : (g.edge p q).current = g.current := rfl

@[simp] lemma size_emit {id : NodeId} : (g.emit id).blocks.size = g.blocks.size := by
  simp [emit]

@[simp] lemma current_emit {id : NodeId} : (g.emit id).current = g.current := rfl

include hp

lemma blockAt_branchTo_of_ne {x : Nat} (hx : x ≠ p) : (g.branchTo p).blockAt x = g.blockAt x := by
  rw [branchTo_eq, blockAt_edge_of_ne (hp.trans (by simp)) hx, blockAt_startBlock]

lemma blockAt_branchTo_current : (g.branchTo p).blockAt g.blocks.size = {} := by
  rw [blockAt_branchTo_of_ne hp (by omega), blockAt_of_le le_rfl]

lemma returns_branchTo (x : Nat) : ((g.branchTo p).blockAt x).returns = (g.blockAt x).returns := by
  rw [branchTo_eq, returns_edge (hp.trans (by simp)), blockAt_startBlock]

include hr

lemma settled_branchTo (x : Nat)
    (hx : x = p ∨ ((g.blockAt x).returns = true ↔ (g.blockAt x).successors = [])) :
    ((g.branchTo p).blockAt x).returns = true ↔ ((g.branchTo p).blockAt x).successors = [] :=
  settled_edge (hp.trans (by simp)) (by simpa using hr) x (by simpa using hx)

lemma returning_branchTo (i : Nat) :
    returning (g.branchTo p).blockAt i = returning g.blockAt i := by
  rw [branchTo_eq, returning_edge_of_empty (hp.trans (by simp)) (by simpa using hr)
    (by simp [blockAt_of_le]) hp.ne, blockAt_startBlock]

include hg

lemma ready_branchTo : (g.branchTo p).Ready where
  inside := by simp
  sink := by rw [current_branchTo, blockAt_branchTo_current hp]
  unreturned := by rw [current_branchTo, blockAt_branchTo_current hp]
  range i k hk := by
    rw [branchTo_eq, mem_successors_edge (hp.trans (by simp)) (by simpa using hr),
      blockAt_startBlock] at hk
    rcases hk with hk | ⟨-, rfl⟩
    · have := hg i k hk
      simp
      omega
    · simp

lemma paths_branchTo {i : Nat} (hi : i < g.blocks.size) (j : Nat) :
    paths (g.branchTo p).blockAt i j =
      if j = g.blocks.size then paths g.blockAt i p else paths g.blockAt i j := by
  rw [branchTo_eq, paths_edge_of_empty (hp.trans (by simp)) (by simpa using hr)
    (by simp [blockAt_of_le]) hp.ne, blockAt_startBlock]
  by_cases hj : j = g.blocks.size
  · rw [if_pos hj, if_pos hj, hj, paths_eq_zero hg hi le_rfl, zero_add]
  · rw [if_neg hj, if_neg hj, add_zero]

end Branch

/-! ### What lowering a statement adds -/

/-- **What lowering something with the traces `t` does.** The blocks that were done stay, with the
walks to them; the walks to the current block go on by `t`, to the new current block or to a
return. -/
structure Lowers (g g' : Lowering) (t : Bool → Language NodeId) : Prop where
  ready : g'.Ready
  grows : g.blocks.size ≤ g'.blocks.size
  moves : g'.current = g.current ∨ g.blocks.size ≤ g'.current
  frame : ∀ j < g.blocks.size, j ≠ g.current → g'.blockAt j = g.blockAt j
  settled : ∀ j, j = g.current ∨ g.blocks.size ≤ j → j < g'.blocks.size → j ≠ g'.current →
    ((g'.blockAt j).returns = true ↔ (g'.blockAt j).successors = [])
  past : ∀ i < g.blocks.size, ∀ j < g.blocks.size, j ≠ g.current →
    paths g'.blockAt i j = paths g.blockAt i j
  ends : ∀ i < g.blocks.size,
    paths g'.blockAt i g'.current = paths g.blockAt i g.current * t false
  returns : ∀ i < g.blocks.size,
    returning g'.blockAt i = returning g.blockAt i + paths g.blockAt i g.current * t true

lemma Lowers.refl (hg : g.Ready) : Lowers g g fun r => if r then 0 else 1 where
  ready := hg
  grows := le_rfl
  moves := Or.inl rfl
  frame _ _ _ := rfl
  settled j hj hlt hne := by omega
  past _ _ _ _ _ := rfl
  ends _ _ := by simp
  returns _ _ := by simp

/-- One statement after the other. -/
lemma Lowers.trans {g1 g2 : Lowering} {t u : Bool → Language NodeId} (h : Lowers g g1 t)
    (h' : Lowers g1 g2 u) : Lowers g g2 fun r => (if r then t true else 0) + t false * u r where
  ready := h'.ready
  grows := h.grows.trans h'.grows
  moves := by
    rcases h'.moves with h2 | h2
    · rw [h2]
      exact h.moves
    · exact Or.inr (h.grows.trans h2)
  frame j hj hne := by
    have hne' : j ≠ g1.current := by
      rcases h.moves with h1 | h1 <;> omega
    rw [h'.frame j (hj.trans_le h.grows) hne', h.frame j hj hne]
  settled j hj hlt hne := by
    by_cases hlt1 : j < g1.blocks.size
    · by_cases hc : j = g1.current
      · exact h'.settled j (Or.inl hc) hlt hne
      · rw [h'.frame j hlt1 hc]
        exact h.settled j hj hlt1 hc
    · exact h'.settled j (Or.inr (by omega)) hlt hne
  past i hi j hj hne := by
    have hne' : j ≠ g1.current := by
      rcases h.moves with h1 | h1 <;> omega
    rw [h'.past i (hi.trans_le h.grows) j (hj.trans_le h.grows) hne', h.past i hi j hj hne]
  ends i hi := by
    rw [h'.ends i (hi.trans_le h.grows), h.ends i hi]
    simp [mul_assoc]
  returns i hi := by
    rw [h'.returns i (hi.trans_le h.grows), h.returns i hi, h.ends i hi]
    simp only [if_true, mul_add, mul_assoc, add_assoc]

section Emit

variable (hg : g.Ready) (id : NodeId)

include hg

lemma blockAt_emit (x : Nat) : (g.emit id).blockAt x = if x = g.current then
    { g.blockAt x with statements := (g.blockAt x).statements ++ [id] } else g.blockAt x :=
  blockAt_modify hg.inside g.current x

lemma paths_emit_current (i j : Nat) : paths (g.emit id).blockAt i j =
    if j = g.current then paths g.blockAt i j * onlyTrace id else paths g.blockAt i j := by
  refine paths_emit hg.sink (fun x => ?_) (fun x => ?_) i j
  · rw [blockAt_emit hg]
    split <;> rfl
  · rw [blockAt_emit hg]
    split <;> rfl

lemma ready_emit : (g.emit id).Ready where
  inside := by simpa [emit] using hg.inside
  sink := by
    rw [blockAt_emit hg]
    simpa [emit] using hg.sink
  unreturned := by
    rw [blockAt_emit hg]
    simpa [emit] using hg.unreturned
  range i k hk := by
    have : k ∈ (g.blockAt i).successors := by
      rw [blockAt_emit hg] at hk
      split at hk <;> exact hk
    simpa [emit] using hg.range i k this

lemma returning_emit (i : Nat) : returning (g.emit id).blockAt i = returning g.blockAt i := by
  have key : ∀ j ids, ids ∈ paths (g.emit id).blockAt i j ∧ ((g.emit id).blockAt j).returns = true ↔
      ids ∈ paths g.blockAt i j ∧ (g.blockAt j).returns = true := by
    intro j ids
    rw [paths_emit_current hg, blockAt_emit hg]
    by_cases hj : j = g.current
    · subst hj
      simp [hg.unreturned]
    · simp [hj]
  ext ids
  exact exists_congr fun j => key j ids

lemma lowers_emit : Lowers g (g.emit id) fun r => if r then 0 else onlyTrace id where
  ready := ready_emit hg id
  grows := size_emit.ge
  moves := Or.inl rfl
  frame j _ hne := by rw [blockAt_emit hg, if_neg hne]
  settled j hj hlt hne := by
    rw [size_emit] at hlt
    rw [current_emit] at hne
    omega
  past i _ j _ hne := by rw [paths_emit_current hg, if_neg hne]
  ends i _ := by
    rw [paths_emit_current hg, if_pos (by rfl)]
    rfl
  returns i _ := by simp [returning_emit hg]

/-- A return ends the current block; what follows stands in a block that nothing leads to. -/
lemma lowers_ret : Lowers g (g.emit id).finish.startBlock fun r =>
    if r then onlyTrace id else 0 := by
  have hemit := ready_emit hg id
  have hsize : (g.emit id).blocks.size = g.blocks.size := size_emit
  have hblock : ∀ x, (g.emit id).finish.startBlock.blockAt x = if x = g.current then
      { (g.emit id).blockAt x with returns := true } else (g.emit id).blockAt x := fun x => by
    rw [blockAt_startBlock]
    exact blockAt_modify hemit.inside _ x
  have hpaths : ∀ i j, paths (g.emit id).finish.startBlock.blockAt i j =
      paths (g.emit id).blockAt i j := fun i j => by
    refine paths_congr (fun x => ?_) (fun x => ?_) i j
    all_goals rw [hblock]; split <;> rfl
  have hcurrent : (g.emit id).finish.startBlock.current = g.blocks.size := by
    simp [startBlock, finish]
  have hfresh : (g.emit id).finish.startBlock.blockAt g.blocks.size = {} := by
    rw [blockAt_startBlock]
    exact blockAt_of_le (by simp [finish])
  have hsize' : (g.emit id).finish.startBlock.blocks.size = g.blocks.size + 1 := by
    simp [finish]
  generalize (g.emit id).finish.startBlock = g' at *
  refine ⟨⟨by omega, ?_, ?_, ?_⟩, by omega, Or.inr hcurrent.ge, ?_, ?_, ?_, ?_, ?_⟩
  · rw [hcurrent, hfresh]
  · rw [hcurrent, hfresh]
  · intro i k hk
    have hold : k ∈ ((g.emit id).blockAt i).successors := by
      rw [hblock] at hk
      split at hk <;> exact hk
    have := hemit.range i k hold
    omega
  · intro j _ hne
    rw [hblock, if_neg hne, blockAt_emit hg, if_neg hne]
  · intro j hj hlt hne
    obtain rfl : j = g.current := by omega
    rw [hblock, if_pos rfl, blockAt_emit hg, if_pos rfl]
    simp [hg.sink]
  · intro i _ j _ hne
    rw [hpaths, paths_emit_current hg, if_neg hne]
  · intro i hi
    rw [hpaths, hcurrent, paths_eq_zero hemit.range (hsize.symm ▸ hi) hsize.le]
    simp
  · intro i _
    ext ids
    constructor
    · rintro ⟨j, hj, hret⟩
      rw [hpaths, paths_emit_current hg] at hj
      rw [hblock] at hret
      by_cases hjc : j = g.current
      · rw [if_pos hjc] at hj
        exact Or.inr (hjc ▸ hj)
      · rw [if_neg hjc] at hj hret
        rw [blockAt_emit hg, if_neg hjc] at hret
        exact Or.inl ⟨j, hj, hret⟩
    · rintro (⟨j, hj, hret⟩ | hnew)
      · have hjc : j ≠ g.current := by
          rintro rfl
          simp [hg.unreturned] at hret
        refine ⟨j, ?_, ?_⟩
        · rw [hpaths, paths_emit_current hg, if_neg hjc]
          exact hj
        · rw [hblock, if_neg hjc, blockAt_emit hg, if_neg hjc]
          exact hret
      · refine ⟨g.current, ?_, ?_⟩
        · rw [hpaths, paths_emit_current hg, if_pos rfl]
          exact hnew
        · rw [hblock, if_pos rfl]

end Emit

/-- What a branch behind the block `p` adds: the walks to `p` also go on by `t`. -/
structure Arm (g : Lowering) (p : Nat) (g' : Lowering) (t : Bool → Language NodeId) : Prop where
  ready : g'.Ready
  grows : g.blocks.size < g'.blocks.size
  moves : g.blocks.size ≤ g'.current
  frame : ∀ j < g.blocks.size, j ≠ p → g'.blockAt j = g.blockAt j
  unreturned : (g'.blockAt p).returns = false
  settled : ∀ j, j = p ∨ g.blocks.size ≤ j → j < g'.blocks.size → j ≠ g'.current →
    ((g'.blockAt j).returns = true ↔ (g'.blockAt j).successors = [])
  past : ∀ i < g.blocks.size, ∀ j < g.blocks.size, paths g'.blockAt i j = paths g.blockAt i j
  ends : ∀ i < g.blocks.size, paths g'.blockAt i g'.current = paths g.blockAt i p * t false
  returns : ∀ i < g.blocks.size,
    returning g'.blockAt i = returning g.blockAt i + paths g.blockAt i p * t true

lemma Lowers.arm {g' : Lowering} {t : Bool → Language NodeId} (hg : g.InRange)
    (hp : p < g.blocks.size) (hr : (g.blockAt p).returns = false)
    (h : Lowers (g.branchTo p) g' t) : Arm g p g' t := by
  have hgrows := h.grows
  have hmoves := h.moves
  rw [size_branchTo] at hgrows
  rw [size_branchTo, current_branchTo] at hmoves
  have hframe : ∀ j < g.blocks.size, g'.blockAt j = (g.branchTo p).blockAt j := fun j hj =>
    h.frame j (by rw [size_branchTo]; omega) (by rw [current_branchTo]; omega)
  refine ⟨h.ready, by omega, by omega, fun j hj hne => ?_, ?_, fun j hj hlt hne => ?_, ?_, ?_, ?_⟩
  · rw [hframe j hj, blockAt_branchTo_of_ne hp hne]
  · rw [hframe p hp, returns_branchTo hp, hr]
  · by_cases hjp : j = p
    · rw [hjp, hframe p hp]
      exact settled_branchTo hp hr p (Or.inl rfl)
    · refine h.settled j ?_ hlt hne
      rw [size_branchTo, current_branchTo]
      omega
  · intro i hi j hj
    rw [h.past i (by rw [size_branchTo]; omega) j (by rw [size_branchTo]; omega)
      (by rw [current_branchTo]; omega), paths_branchTo hg hp hr hi, if_neg (by omega)]
  · intro i hi
    rw [h.ends i (by rw [size_branchTo]; omega), paths_branchTo hg hp hr hi,
      if_pos current_branchTo]
  · intro i hi
    rw [h.returns i (by rw [size_branchTo]; omega), paths_branchTo hg hp hr hi,
      if_pos current_branchTo, returning_branchTo hp hr]

/-- The block where two open ends `p` and `q` meet. -/
structure Join (g : Lowering) (p q : Nat) (g' : Lowering) : Prop where
  ready : g'.Ready
  size : g'.blocks.size = g.blocks.size + 1
  current : g'.current = g.blocks.size
  frame : ∀ j < g.blocks.size, j ≠ p → j ≠ q → g'.blockAt j = g.blockAt j
  settled : ∀ j < g.blocks.size,
    j = p ∨ j = q ∨ ((g.blockAt j).returns = true ↔ (g.blockAt j).successors = []) →
    ((g'.blockAt j).returns = true ↔ (g'.blockAt j).successors = [])
  past : ∀ i < g.blocks.size, ∀ j < g.blocks.size, paths g'.blockAt i j = paths g.blockAt i j
  ends : ∀ i < g.blocks.size,
    paths g'.blockAt i g'.current = paths g.blockAt i p + paths g.blockAt i q
  returns : ∀ i < g.blocks.size, returning g'.blockAt i = returning g.blockAt i

lemma join_edge {q : Nat} (hg : g.InRange) (hp : p < g.blocks.size) (hq : q < g.blocks.size)
    (hrp : (g.blockAt p).returns = false) (hrq : (g.blockAt q).returns = false) :
    Join g p q ((g.branchTo p).edge q (g.branchTo p).current) := by
  have hready := ready_branchTo hg hp hrp
  have hq' : q < (g.branchTo p).blocks.size := by rw [size_branchTo]; omega
  have hrq' : ((g.branchTo p).blockAt q).returns = false := by rw [returns_branchTo hp, hrq]
  have hempty := blockAt_branchTo_current (g := g) hp
  have hpaths : ∀ i < g.blocks.size, ∀ j,
      paths ((g.branchTo p).edge q g.blocks.size).blockAt i j =
        if j = g.blocks.size then paths g.blockAt i p + paths g.blockAt i q
        else paths g.blockAt i j := by
    intro i hi j
    rw [paths_edge_of_empty hq' hrq' hempty (by omega), paths_branchTo hg hp hrp hi,
      paths_branchTo hg hp hrp hi, if_neg hq.ne]
    by_cases hj : j = g.blocks.size
    · rw [if_pos hj, if_pos hj, if_pos hj]
    · rw [if_neg hj, if_neg hj, if_neg hj, add_zero]
  rw [current_branchTo]
  refine ⟨⟨?_, ?_, ?_, ?_⟩, by simp, by simp, fun j hj hjp hjq => ?_, fun j hj h => ?_,
    fun i hi j hj => ?_, fun i hi => ?_, fun i hi => ?_⟩
  · simp
  · rw [current_edge, current_branchTo, blockAt_edge_of_ne hq' (by omega), hempty]
  · rw [current_edge, current_branchTo, blockAt_edge_of_ne hq' (by omega), hempty]
  · intro i k hk
    rw [size_edge]
    rcases (mem_successors_edge hq' hrq' i k).1 hk with hk | ⟨-, rfl⟩
    · exact hready.range i k hk
    · simp
  · rw [blockAt_edge_of_ne hq' hjq, blockAt_branchTo_of_ne hp hjp]
  · refine settled_edge hq' hrq' j ?_
    rcases h with h | h | h
    · exact Or.inr (settled_branchTo hp hrp j (Or.inl h))
    · exact Or.inl h
    · exact Or.inr (settled_branchTo hp hrp j (Or.inr h))
  · rw [hpaths i hi, if_neg hj.ne]
  · rw [current_edge, current_branchTo, hpaths i hi, if_pos rfl]
  · rw [returning_edge_of_empty hq' hrq' hempty (by omega), returning_branchTo hp hrp]

section Conditional

variable {id : NodeId} {yes no : Lowering} {t u : Bool → Language NodeId} (hg : g.Ready)
  (hyes : Arm (g.emit id) g.current yes t)

include hg hyes

/-- Both ends of a conditional meet again; without an alternative one of them is the fork. -/
lemma lowers_branch_none :
    Lowers g ((yes.branchTo yes.current).edge g.current (yes.branchTo yes.current).current)
      fun r => onlyTrace id * (t r + if r then 0 else 1) := by
  have hsize : (g.emit id).blocks.size = g.blocks.size := size_emit
  have hgrows := hyes.grows
  have hmoves := hyes.moves
  have hin := hg.inside
  have hjoin := join_edge hyes.ready.range hyes.ready.inside (by omega : g.current < _)
    hyes.ready.unreturned hyes.unreturned
  generalize (yes.branchTo yes.current).edge g.current (yes.branchTo yes.current).current = g' at *
  have hsize' := hjoin.size
  have hcurrent' := hjoin.current
  refine ⟨hjoin.ready, by omega, by omega, fun j hj hne => ?_, fun j hj hlt hne => ?_,
    fun i hi j hj hne => ?_, fun i hi => ?_, fun i hi => ?_⟩
  · rw [hjoin.frame j (by omega) (by omega) hne, hyes.frame j (by omega) hne, blockAt_emit hg,
      if_neg hne]
  · refine hjoin.settled j (by omega) ?_
    by_cases hjy : j = yes.current
    · exact Or.inl hjy
    · exact Or.inr (Or.inr (hyes.settled j (by omega) (by omega) hjy))
  · rw [hjoin.past i (by omega) j (by omega), hyes.past i (by omega) j (by omega),
      paths_emit_current hg, if_neg hne]
  · rw [hjoin.ends i (by omega), hyes.ends i (by omega),
      hyes.past i (by omega) g.current (by omega),
      paths_emit_current hg, if_pos rfl]
    simp only [Bool.false_eq_true, if_false, mul_add, mul_assoc, mul_one]
  · rw [hjoin.returns i (by omega), hyes.returns i (by omega), returning_emit hg,
      paths_emit_current hg, if_pos rfl]
    simp only [if_true, mul_assoc, add_zero]

lemma lowers_branch_some (hno : Arm yes g.current no u) :
    Lowers g ((no.branchTo yes.current).edge no.current (no.branchTo yes.current).current)
      fun r => onlyTrace id * (t r + u r) := by
  have hsize : (g.emit id).blocks.size = g.blocks.size := size_emit
  have hgrows := hyes.grows
  have hmoves := hyes.moves
  have hin := hg.inside
  have hinYes := hyes.ready.inside
  have hgrowsNo := hno.grows
  have hmovesNo := hno.moves
  have hopen : (no.blockAt yes.current).returns = false := by
    rw [hno.frame yes.current hinYes (by omega), hyes.ready.unreturned]
  have hjoin := join_edge hno.ready.range (by omega : yes.current < _) hno.ready.inside hopen
    hno.ready.unreturned
  generalize (no.branchTo yes.current).edge no.current (no.branchTo yes.current).current = g' at *
  have hsize' := hjoin.size
  have hcurrent' := hjoin.current
  refine ⟨hjoin.ready, by omega, by omega, fun j hj hne => ?_, fun j hj hlt hne => ?_,
    fun i hi j hj hne => ?_, fun i hi => ?_, fun i hi => ?_⟩
  · rw [hjoin.frame j (by omega) (by omega) (by omega), hno.frame j (by omega) hne,
      hyes.frame j (by omega) hne, blockAt_emit hg, if_neg hne]
  · refine hjoin.settled j (by omega) ?_
    by_cases hjy : j = yes.current
    · exact Or.inl hjy
    by_cases hjn : j = no.current
    · exact Or.inr (Or.inl hjn)
    refine Or.inr (Or.inr ?_)
    -- the first branch settled its blocks, and the second left them as they were
    by_cases hjc : j = g.current ∨ yes.blocks.size ≤ j
    · exact hno.settled j hjc (by omega) hjn
    · rw [hno.frame j (by omega) (by omega)]
      exact hyes.settled j (by omega) (by omega) hjy
  · rw [hjoin.past i (by omega) j (by omega), hno.past i (by omega) j (by omega),
      hyes.past i (by omega) j (by omega), paths_emit_current hg, if_neg hne]
  · rw [hjoin.ends i (by omega), hno.ends i (by omega), hno.past i (by omega) _ hinYes,
      hyes.ends i (by omega), hyes.past i (by omega) g.current (by omega), paths_emit_current hg,
      if_pos rfl]
    simp only [mul_add, mul_assoc]
  · rw [hjoin.returns i (by omega), hno.returns i (by omega), hyes.returns i (by omega),
      hyes.past i (by omega) g.current (by omega), returning_emit hg, paths_emit_current hg,
      if_pos rfl]
    simp only [mul_add, mul_assoc, add_assoc]

end Conditional

/-- A language that runs `m` and then itself, or else `n`, runs `m` any number of times and then
`n`: Arden's lemma, for an `m` that begins with a statement. -/
lemma eq_kstar_mul {m l n : Language NodeId} (h : l = onlyTrace id * m * l + n) :
    l = (onlyTrace id * m)∗ * n := by
  refine (Language.self_eq_mul_add_iff fun hnil => ?_).1 h
  obtain ⟨u, rfl, v, -, huv⟩ := Language.mem_mul.1 hnil
  exact List.cons_ne_nil _ _ huv

/-- **Loops.** The walks from the header back to the header solve the equation of Arden's lemma,
and so do those from the header to a return. -/
lemma lowers_loop {body : Lowering} {t : Bool → Language NodeId} (hg : g.Ready)
    (hbody : Arm ((g.branchTo g.current).emit id) g.blocks.size body t) :
    Lowers g ((body.edge body.current g.blocks.size).branchTo g.blocks.size)
      fun r => (onlyTrace id * t false)∗ * (onlyTrace id * if r then t true else 1) := by
  have hin := hg.inside
  have hopen := ready_branchTo hg.range hg.inside hg.unreturned
  -- the header: a new block behind the current one, with the loop's test in it
  have hsize : ((g.branchTo g.current).emit id).blocks.size = g.blocks.size + 1 := by simp
  have hheader : ((g.branchTo g.current).emit id).blockAt g.blocks.size =
      { statements := [id] } := by
    rw [blockAt_emit hopen, if_pos current_branchTo.symm, blockAt_branchTo_current hin]
    rfl
  have hpaths : ∀ i < g.blocks.size, ∀ j, paths ((g.branchTo g.current).emit id).blockAt i j =
      if j = g.blocks.size then paths g.blockAt i g.current * onlyTrace id
      else paths g.blockAt i j := by
    intro i hi j
    rw [paths_emit_current hopen, paths_branchTo hg.range hin hg.unreturned hi, current_branchTo]
    split_ifs <;> rfl
  have hfrom : ∀ j, paths ((g.branchTo g.current).emit id).blockAt g.blocks.size j =
      if j = g.blocks.size then onlyTrace id else 0 := by
    intro j
    rw [paths_of_sink (by rw [hheader]), hheader]
    rfl
  have hreturning : ∀ i, returning ((g.branchTo g.current).emit id).blockAt i =
      returning g.blockAt i := fun i => by
    rw [returning_emit hopen, returning_branchTo hin hg.unreturned]
  have hnone : returning ((g.branchTo g.current).emit id).blockAt g.blocks.size = 0 :=
    returning_of_sink (by rw [hheader]) (by rw [hheader])
  have hframe : ∀ j < g.blocks.size, ((g.branchTo g.current).emit id).blockAt j =
      (g.branchTo g.current).blockAt j := fun j hj => by
    rw [blockAt_emit hopen, if_neg (by rw [current_branchTo]; omega)]
  generalize (g.branchTo g.current).emit id = header at *
  have hgrows := hbody.grows
  have hmoves := hbody.moves
  have hinBody := hbody.ready.inside
  -- the back edge
  have hback := paths_edge (h := g.blocks.size) hinBody hbody.ready.unreturned
  have hreturnBack := returning_edge (h := g.blocks.size) hinBody hbody.ready.unreturned
  have hround : paths (body.edge body.current g.blocks.size).blockAt g.blocks.size g.blocks.size =
      (onlyTrace id * t false)∗ * onlyTrace id := by
    refine eq_kstar_mul ?_
    conv_lhs => rw [hback, hbody.past _ (by omega) _ (by omega), hbody.ends _ (by omega), hfrom,
      if_pos rfl, add_comm]
  have hnever : ∀ j < g.blocks.size,
      paths (body.edge body.current g.blocks.size).blockAt g.blocks.size j = 0 := by
    intro j hj
    rw [← mul_zero (onlyTrace id * t false)∗]
    refine eq_kstar_mul ?_
    conv_lhs => rw [hback, hbody.past _ (by omega) _ (by omega), hbody.ends _ (by omega), hfrom,
      hfrom, if_neg hj.ne, if_pos rfl, add_comm]
  have hleaves : returning (body.edge body.current g.blocks.size).blockAt g.blocks.size =
      (onlyTrace id * t false)∗ * (onlyTrace id * t true) := by
    refine eq_kstar_mul ?_
    conv_lhs => rw [hreturnBack, hbody.returns _ (by omega), hbody.ends _ (by omega), hfrom, hnone,
      if_pos rfl, zero_add, add_comm]
  have hrange : (body.edge body.current g.blocks.size).InRange := by
    intro i k hk
    rw [size_edge]
    rcases (mem_successors_edge hinBody hbody.ready.unreturned i k).1 hk with hk | ⟨-, rfl⟩
    · exact hbody.ready.range i k hk
    · omega
  have hsizeBack : (body.edge body.current g.blocks.size).blocks.size =
      body.blocks.size := size_edge
  have hheaderIn : g.blocks.size < (body.edge body.current g.blocks.size).blocks.size := by omega
  have hheaderOpen :
      ((body.edge body.current g.blocks.size).blockAt g.blocks.size).returns = false := by
    rw [returns_edge hinBody, hbody.unreturned]
  have hunroll : ∀ u : Language NodeId, onlyTrace id * u +
      onlyTrace id * t false * ((onlyTrace id * t false)∗ * (onlyTrace id * u)) =
        (onlyTrace id * t false)∗ * (onlyTrace id * u) := by
    intro u
    conv_rhs => rw [← Language.one_add_self_mul_kstar_eq_kstar]
    rw [add_mul, one_mul, mul_assoc (onlyTrace id * t false)]
  refine ⟨ready_branchTo hrange hheaderIn hheaderOpen, ?_, ?_, fun j hj hne => ?_,
    fun j hj hlt hne => ?_, fun i hi j hj hne => ?_, fun i hi => ?_, fun i hi => ?_⟩
  · rw [size_branchTo]
    omega
  · rw [current_branchTo]
    omega
  · rw [blockAt_branchTo_of_ne hheaderIn (by omega), blockAt_edge_of_ne hinBody (by omega),
      hbody.frame j (by omega) (by omega), hframe j hj, blockAt_branchTo_of_ne hin hne]
  · rw [size_branchTo, current_branchTo] at *
    refine settled_branchTo hheaderIn hheaderOpen j (Or.inr ?_)
    refine settled_edge hinBody hbody.ready.unreturned j ?_
    by_cases hjb : j = body.current
    · exact Or.inl hjb
    refine Or.inr ?_
    by_cases hjc : j = g.current
    · rw [hbody.frame j (by omega) (by omega), hframe j (by omega)]
      exact settled_branchTo hin hg.unreturned j (Or.inl hjc)
    · exact hbody.settled j (by omega) (by omega) hjb
  · rw [paths_branchTo hrange hheaderIn hheaderOpen (by omega), if_neg (by omega), hback,
      hnever j hj, mul_zero, add_zero, hbody.past i (by omega) j (by omega), hpaths i hi,
      if_neg hj.ne]
  · rw [paths_branchTo hrange hheaderIn hheaderOpen (by omega), if_pos (by rw [current_branchTo]),
      hback, hround, hbody.past i (by omega) _ (by omega), hbody.ends i (by omega), hpaths i hi,
      if_pos rfl]
    have := hunroll 1
    simp only [mul_one, mul_assoc, Bool.false_eq_true, if_false] at this ⊢
    rw [← mul_add, this]
  · rw [returning_branchTo hheaderIn hheaderOpen, hreturnBack, hleaves, hbody.returns i (by omega),
      hbody.ends i (by omega), hreturning, hpaths i hi, if_pos rfl]
    have := hunroll (t true)
    simp only [mul_assoc, if_true, add_assoc] at this ⊢
    rw [← mul_add, this]

/-! ### Bodies -/

mutual

theorem lowers_stmt : ∀ (s : Stmt) {g : Lowering}, g.Ready → Lowers g (g.stmt s) s.traces
  | .expression node _, _, hg => by
    simpa only [stmt, Stmt.traces] using lowers_emit hg node.id
  | .var decl, _, hg => by
    simpa only [stmt, Stmt.traces] using lowers_emit hg decl.id
  | .ret node _, _, hg => by
    simpa only [stmt, Stmt.traces] using lowers_ret hg node.id
  | .branch node _ yes none, _, hg => by
    have hemit := ready_emit hg node.id
    have hopen := ready_branchTo hemit.range hemit.inside hemit.unreturned
    have hyes := (lowers_block yes hopen).arm hemit.range hemit.inside hemit.unreturned
    simp only [stmt]
    exact lowers_branch_none hg hyes
  | .branch node _ yes (some no), _, hg => by
    have hemit := ready_emit hg node.id
    have hopen := ready_branchTo hemit.range hemit.inside hemit.unreturned
    have hyes := (lowers_block yes hopen).arm hemit.range hemit.inside hemit.unreturned
    have hfork := hemit.inside.trans hyes.grows
    have hopen' := ready_branchTo hyes.ready.range hfork hyes.unreturned
    have hno := (lowers_block no hopen').arm hyes.ready.range hfork hyes.unreturned
    simp only [stmt]
    exact lowers_branch_some hg hyes hno
  | .loop node _ body, _, hg => by
    have hheader := ready_emit (ready_branchTo hg.range hg.inside hg.unreturned) node.id
    have hopen := ready_branchTo hheader.range hheader.inside hheader.unreturned
    have hbody := (lowers_block body hopen).arm hheader.range hheader.inside hheader.unreturned
    simp only [stmt]
    exact lowers_loop hg hbody
  | .block b, _, hg => by
    simpa only [stmt, Stmt.traces] using lowers_block b hg

theorem lowers_stmts :
    ∀ (ss : List Stmt) {g : Lowering}, g.Ready → Lowers g (g.stmts ss) (Stmts.traces ss)
  | [], _, hg => by
    simpa only [stmts, Stmts.traces] using Lowers.refl hg
  | s :: rest, _, hg => by
    have hs := lowers_stmt s hg
    simpa only [stmts, Stmts.traces] using hs.trans (lowers_stmts rest hs.ready)

theorem lowers_block : ∀ (b : Block) {g : Lowering}, g.Ready → Lowers g (g.block b) b.traces
  | ⟨_, ss⟩, _, hg => by
    simpa only [block, Block.traces] using lowers_stmts ss hg

end

lemma ready_start : Ready {} where
  inside := Nat.one_pos
  sink := rfl
  unreturned := rfl
  range i _ hk := by
    rcases i with _ | i <;> cases hk

/-! ### Blocks accessed

Lowering changes blocks that it has made. -/

/-- However blocks are accessed, the result is the same; it keeps the blocks of `g` and has a
current one. -/
structure Steady (g : Lowering) (f : [Access] → Lowering) : Prop where
  steady : ∀ A, @f A = @f .usual
  grows : g.blocks.size ≤ f.blocks.size
  inside : f.current < f.blocks.size

section Accessed

variable {p : Nat} (hp : p < g.blocks.size) (hg : g.current < g.blocks.size) (id : NodeId)
  (A : Access)

include hp in
lemma edge_at (q : Nat) : @edge A g p q = @edge .usual g p q := by
  simp [edge, Access.modify_eq, hp]

include hp in
lemma branchTo_at : @branchTo A g p = @branchTo .usual g p := by
  have : p < g.startBlock.blocks.size := by
    simp only [startBlock, Array.size_push]
    omega
  simp [branchTo, edge_at this]

include hg in
lemma emit_at : @emit A g id = @emit .usual g id := by
  simp [emit, Access.modify_eq, hg]

end Accessed

mutual

theorem steady_stmt :
    ∀ (s : Stmt) {g : Lowering}, g.current < g.blocks.size → g.Steady fun [Access] => g.stmt s
  | .expression node _, g, hg => by
    refine ⟨fun A => ?_, ?_, ?_⟩ <;> simp [stmt, emit_at, hg]
  | .var decl, g, hg => by
    refine ⟨fun A => ?_, ?_, ?_⟩ <;> simp [stmt, emit_at, hg]
  | .ret node _, g, hg => by
    refine ⟨fun A => ?_, ?_, ?_⟩ <;> simp [stmt, emit_at, finish, startBlock, Access.modify_eq, hg]
  | .branch node _ yes none, g, hg => by
    have hyes := steady_block yes (g := (g.emit node.id).branchTo g.current) (by simp)
    have hgrows := hyes.grows
    rw [size_branchTo, size_emit] at hgrows
    refine ⟨fun A => ?_, ?_, ?_⟩
    · simp only [stmt, emit_at, hg, current_emit, branchTo_at, size_emit, hyes.steady, hyes.inside]
      exact edge_at (by rw [size_branchTo]; omega) ..
    · simp only [stmt, size_edge, size_branchTo, current_emit]
      omega
    · simp [stmt]
  | .branch node _ yes (some no), g, hg => by
    have hyes := steady_block yes (g := (g.emit node.id).branchTo g.current) (by simp)
    have hgrows := hyes.grows
    rw [size_branchTo, size_emit] at hgrows
    have hinside := hyes.inside
    have hfork := hg.trans_le (Nat.le_of_succ_le hgrows)
    have hno := steady_block no
      (g := (((g.emit node.id).branchTo g.current).block yes).branchTo g.current) (by simp)
    have hgrows' := hno.grows
    rw [size_branchTo] at hgrows'
    refine ⟨fun A => ?_, ?_, ?_⟩
    · simp only [stmt, emit_at, hg, current_emit, branchTo_at, size_emit, hyes.steady, hfork,
        hno.steady, hinside.trans_le (Nat.le_of_succ_le hgrows')]
      exact edge_at (hno.inside.trans_le (by simp)) ..
    · simp only [stmt, size_edge, size_branchTo, current_emit]
      omega
    · simp [stmt]
  | .loop node _ body, g, hg => by
    have hheader : (g.branchTo g.current).current < (g.branchTo g.current).blocks.size := by simp
    have hbody := steady_block body
      (g := ((g.branchTo g.current).emit node.id).branchTo g.blocks.size) (by simp)
    have hgrows := hbody.grows
    rw [size_branchTo, size_emit, size_branchTo] at hgrows
    refine ⟨fun A => ?_, ?_, ?_⟩
    · simp only [stmt, branchTo_at, hg, emit_at hheader, current_emit, current_branchTo, size_emit,
        size_branchTo, Nat.lt_succ_self, hbody.steady, edge_at, hbody.inside]
      exact branchTo_at (by rw [size_edge]; omega) ..
    · simp only [stmt, size_edge, size_branchTo, current_emit, current_branchTo]
      omega
    · simp [stmt]
  | .block b, g, hg => by
    simpa only [stmt] using steady_block b hg

theorem steady_stmts : ∀ (ss : List Stmt) {g : Lowering}, g.current < g.blocks.size →
    g.Steady fun [Access] => g.stmts ss
  | [], g, hg => by
    simpa only [stmts] using ⟨fun _ => rfl, le_rfl, hg⟩
  | s :: rest, g, hg => by
    have hs := steady_stmt s hg
    have hrest := steady_stmts rest hs.inside
    refine ⟨fun A => ?_, ?_, ?_⟩ <;> simp only [stmts]
    · rw [hs.steady, hrest.steady]
    · exact hs.grows.trans hrest.grows
    · exact hrest.inside

theorem steady_block :
    ∀ (b : Block) {g : Lowering}, g.current < g.blocks.size → g.Steady fun [Access] => g.block b
  | ⟨_, ss⟩, g, hg => by
    simpa only [block] using steady_stmts ss hg

end

/-- Where the walks of a finished graph end: in the last current block, or in a return. -/
lemma Lowers.complete {g' : Lowering} {t : Bool → Language NodeId} (h : Lowers {} g' t)
    {ids : List NodeId} (hw : ids ∈ paths g'.blockAt 0 j) :
    (g'.blockAt j).successors = [] ↔ j = g'.current ∨ (g'.blockAt j).returns = true := by
  have hlt : j < g'.blocks.size := by
    by_contra hge
    rw [paths_eq_zero h.ready.range (Nat.one_pos.trans_le h.grows) (by omega)] at hw
    exact hw
  have hsettled := h.settled j (by simp only [List.size_toArray, List.length_singleton]; omega) hlt
  by_cases hj : j = g'.current
  · subst hj
    simp [h.ready.sink]
  · simp [hj, hsettled hj]

end Lowering

lemma FunctionDecl.flowGraph_at (f : FunctionDecl) (A : Access) :
    @f.flowGraph A = @f.flowGraph .usual := by
  have hbody := Lowering.steady_block f.body (g := {}) Nat.one_pos
  simp only [flowGraph, hbody.steady]

/-- **The flow graph has exactly the traces of the body.** For every function, the complete walks
of its graph list the same statements as the runs of its body, and end in a return just when those
do. -/
theorem FunctionDecl.flowGraph_traces (f : FunctionDecl) (returned : Bool) :
    f.flowGraph.traces returned = f.body.traces returned := by
  have h := Lowering.lowers_block f.body Lowering.ready_start
  have hblock : f.flowGraph.block = (Lowering.block {} f.body).blockAt := rfl
  have hstart : paths (Lowering.blockAt {}) 0 0 = 1 := by
    rw [paths_of_empty rfl, if_pos rfl]
  have hnone : returning (Lowering.blockAt {}) 0 = 0 := returning_of_sink rfl rfl
  have hends := h.ends 0 Nat.one_pos
  have hreturns := h.returns 0 Nat.one_pos
  rw [hstart, one_mul] at hends
  rw [hstart, one_mul, hnone, zero_add] at hreturns
  ext ids
  constructor
  · rintro ⟨j, hw, hs, rfl⟩
    rw [FlowGraph.successors, hblock] at hs
    rw [hblock] at hw ⊢
    rcases (h.complete hw).1 hs with rfl | hr
    · rw [h.ready.unreturned, ← hends]
      exact hw
    · rw [hr, ← hreturns]
      exact ⟨j, hw, hr⟩
  · intro hids
    cases returned with
    | false =>
      rw [← hends] at hids
      exact ⟨_, hids, (h.complete hids).2 (Or.inl rfl), h.ready.unreturned⟩
    | true =>
      rw [← hreturns] at hids
      obtain ⟨j, hw, hr⟩ := hids
      exact ⟨j, hw, (h.complete hw).2 (Or.inr hr), hr⟩

end Sema
