import Sema.Proofs.Parts
import Sema.Proofs.Returns

/-!
Two questions that are answered by a search: whether there is a placeholder in a type, and which
blocks of a flow graph no walk comes to. Both answers are exact, on every store and on every graph
without dangling references, and neither depends on the order in which the search goes about.
-/

namespace Sema

open Graph

/-! ### Placeholders in a type -/

/-- The slot stands in a layer of a type. Classes and enums go by name, so nothing stands in
them. -/
inductive Shape.Mentions : Shape → Slot → Prop
  | result {returns : Slot} {parameters : List (String × Slot)} :
      Mentions (.function returns parameters) returns
  | parameter {returns : Slot} {parameters : List (String × Slot)} {p : String × Slot}
      (h : p ∈ parameters) : Mentions (.function returns parameters) p.2
  | argument {name : String} {arguments : List Slot} {y : Slot} (h : y ∈ arguments) :
      Mentions (.generic name arguments) y
  | payload {scope : ScopeId} {name : String} {payload : List Slot} {y : Slot} (h : y ∈ payload) :
      Mentions (.enumItem scope name payload) y
  | field {scope : ScopeId} {fields : List (String × Slot)} {f : String × Slot} (h : f ∈ fields) :
      Mentions (.record scope fields) f.2
  | item {scope : ScopeId} {items : List Slot} {y : Slot} (h : y ∈ items) :
      Mentions (.inlineEnum scope items) y

lemma Shape.mem_components_iff {shape : Shape} {y : Slot} :
    y ∈ shape.components ↔ shape.Mentions y := by
  constructor
  · intro h
    cases shape with
    | function returns parameters =>
      rcases List.mem_cons.mp h with rfl | h
      · exact .result
      · obtain ⟨p, hp, rfl⟩ := List.mem_map.mp h
        exact .parameter hp
    | generic name arguments => exact .argument h
    | record scope fields =>
      obtain ⟨f, hf, rfl⟩ := List.mem_map.mp h
      exact .field hf
    | enumItem scope name payload => exact .payload h
    | inlineEnum scope items => exact .item h
    | void | unknown | deferred | boolean | string | number | object | enum =>
      exact absurd h List.not_mem_nil
  · intro h
    cases h with
    | result => exact List.mem_cons_self
    | parameter h => exact List.mem_cons_of_mem _ (List.mem_map_of_mem h)
    | field h => exact List.mem_map_of_mem h
    | argument h | payload h | item h => exact h

namespace TypeStore

variable {t : TypeStore} {x y : Slot}

/-- A path into the type in `x`, from layer to layer. -/
def Path (t : TypeStore) : Slot → Slot → Prop :=
  Relation.ReflTransGen fun x y => ∃ shape, t.slots[x]? = some shape ∧ shape.Mentions y

lemma path_iff : t.Path x y ↔ t.Part x y := by
  have hstep : ∀ x y, (∃ shape, t.slots[x]? = some shape ∧ shape.Mentions y) ↔
      y ∈ t.components x := by
    intro x y
    by_cases hx : x < t.size
    · simp [slots_getElem? hx, components, Shape.mem_components_iff]
    · have hx : t.size ≤ x := Nat.le_of_not_lt hx
      have hnone : t.slots[x]? = none := Array.getElem?_eq_none hx
      simp [hnone, components_eq_nil hx]
  simp only [Path, hstep]
  rfl

/-- Whether a type has a part of some kind is settled by a search through its layers. -/
lemma settles_parts (h : t.InRange) (hx : x < t.size) (p : Shape → Bool) :
    Settles t.components (fun y => p (t.get y) = true) t.size x
      (((t.parts x).any fun y => p (t.get y)) = true) := by
  rw [any_parts_iff]
  exact settles (fun _ => components_eq_nil) (fun _ => h.component_lt) hx

/-- The parts of a type are stored, and their kind is that of what is stored. -/
lemma any_parts_iff_path (h : t.InRange) (hx : x < t.size) (p : Shape → Bool) :
    ((t.parts x).any fun y => p (t.get y)) = true ↔ ∃ y, t.Path x y ∧ t.slots[y]?.any p = true := by
  simp only [any_parts_iff, path_iff]
  refine exists_congr fun y => and_congr_right fun hy => ?_
  rw [slots_getElem? (h.part_lt hx hy), Option.any_some]

/-- **Placeholders are found exactly.** In a store whose types refer to slots that exist, the parts
of a type are what a search has seen at its end. A search that stops at the first placeholder ends
as well, in whatever order it takes the slots, and its answer is the one that is given: there is a
path into the type, not through a class or an enum, to a slot that holds a placeholder. The same
goes for the placeholders that are to be inferred. -/
theorem placeholders_found_exactly (h : t.InRange) (hx : x < t.size) :
    Ended t.components (fun _ => False) x ⟨t.parts x, []⟩ ∧
    Settles t.components (fun y => (t.get y).isPlaceholder = true) t.size x
      (t.isIncomplete x = true) ∧
    (t.isIncomplete x = true ↔ ∃ y, t.Path x y ∧
      (t.slots[y]? = some .unknown ∨ t.slots[y]? = some .deferred)) ∧
    Settles t.components (fun y => (t.get y).isDeferred = true) t.size x (t.hasDeferred x = true) ∧
    (t.hasDeferred x = true ↔ ∃ y, t.Path x y ∧ t.slots[y]? = some .deferred) := by
  have hplaceholder : ∀ s : Option Shape,
      s.any Shape.isPlaceholder = true ↔ s = some .unknown ∨ s = some .deferred := by
    rintro (_ | shape)
    · simp
    · cases shape <;> simp [Shape.isPlaceholder]
  have hdeferred : ∀ s : Option Shape, s.any Shape.isDeferred = true ↔ s = some .deferred := by
    rintro (_ | shape)
    · simp
    · cases shape <;> simp [Shape.isDeferred]
  have hincomplete := any_parts_iff_path h hx Shape.isPlaceholder
  have hinferred := any_parts_iff_path h hx Shape.isDeferred
  simp only [hplaceholder] at hincomplete
  simp only [hdeferred] at hinferred
  exact ⟨ended_reachable (fun _ => components_eq_nil) x, settles_parts h hx _, hincomplete,
    settles_parts h hx _, hinferred⟩

/-- A list of boxes, where what a box holds is still to be inferred, but not seen through the class;
a function from a placeholder to arrays of such functions; and an enum with an unknown payload. -/
def unsettled : TypeStore :=
  ⟨#[.deferred, .object 0 none "Box" [("content", 0)], .record 0 [("box", 1), ("rest", 3)],
    .generic Shape.optionalName [2], .generic Shape.arrayName [5], .function 4 [("seed", 0)],
    .unknown, .enumItem 0 "Item" [6], .inlineEnum 0 [7]]⟩

theorem placeholders_found_exactly_unsettled :
    unsettled.InRange ∧
    Acc (fun s' s =>
      Turn unsettled.components (fun y => (unsettled.get y).isPlaceholder = true) s s')
      (.start 2) ∧
    (∀ y, unsettled.Path 2 y → unsettled.slots[y]? ≠ some .unknown ∧
      unsettled.slots[y]? ≠ some .deferred) ∧
    (∃ y, unsettled.Path 4 y ∧ unsettled.slots[y]? = some .deferred) ∧
    (∃ y, unsettled.Path 8 y ∧
      (unsettled.slots[y]? = some .unknown ∨ unsettled.slots[y]? = some .deferred)) ∧
    ∀ y, unsettled.Path 8 y → unsettled.slots[y]? ≠ some .deferred := by
  have hrange : unsettled.InRange := by decide
  obtain ⟨-, hsettles, hlist, -, -⟩ := placeholders_found_exactly (x := 2) hrange (by decide)
  obtain ⟨-, -, -, -, hfunction⟩ := placeholders_found_exactly (x := 4) hrange (by decide)
  obtain ⟨-, -, henum, -, henum'⟩ := placeholders_found_exactly (x := 8) hrange (by decide)
  have hcomplete : ¬ unsettled.isIncomplete 2 = true := by decide
  have hsettled : ¬ unsettled.hasDeferred 8 = true := by decide
  refine ⟨hrange, hsettles.ends,
    fun y hy => not_or.mp fun hshape => hcomplete (hlist.mpr ⟨y, hy, hshape⟩),
    hfunction.mp (by decide), henum.mp (by decide), fun y hy hshape => ?_⟩
  exact hsettled (henum'.mpr ⟨y, hy, hshape⟩)

end TypeStore

/-! ### Blocks that no walk comes to -/

namespace FlowGraph

variable {g : FlowGraph}

/-- The graph has an entry, and its edges lead to blocks of it. -/
structure InRange (g : FlowGraph) : Prop where
  entry : 0 < g.blocks.size
  successors : ∀ b ∈ g.blocks, ∀ k ∈ b.successors, k < g.blocks.size

lemma successors_eq_nil {i : Nat} (h : g.blocks.size ≤ i) : g.successors i = [] := by
  simp [successors, block, h]

lemma InRange.successor_lt (h : g.InRange) {i : Nat} (hi : i < g.blocks.size) :
    ∀ k ∈ g.successors i, k < g.blocks.size := by
  have hblock : g.block i = g.blocks[i] := by simp [block, hi]
  rw [FlowGraph.successors, hblock]
  exact h.successors _ (Array.getElem_mem hi)

lemma exists_path_iff {i j : Nat} : (∃ ids, Path g.block i ids j) ↔ Reaches g.successors i j := by
  refine ⟨?_, Path.exists_of_reaches⟩
  rintro ⟨ids, h⟩
  induction h with
  | here => exact .refl
  | step hk _ ih => exact .head hk ih

end FlowGraph

/-- The graph of a function has all the blocks that it refers to. -/
lemma FunctionDecl.flowGraph_inRange (f : FunctionDecl) : f.flowGraph.InRange := by
  have hlowers := Lowering.lowers_block f.body Lowering.ready_start
  refine ⟨Nat.one_pos.trans_le hlowers.grows, fun b hb => ?_⟩
  obtain ⟨i, hi, rfl⟩ := Array.mem_iff_getElem.mp hb
  have hrange := hlowers.ready.range i
  rwa [Lowering.blockAt_of_lt hi] at hrange

namespace FlowGraph

/-- **The unreachable blocks are listed exactly.** If the edges of a graph with an entry lead to
blocks of it, every search from the entry ends, in whatever order it takes the blocks; the one that
is run is run to its end, and none comes across anything but blocks of the graph. The blocks that
are listed are those that a search has not seen at its end, in ascending order and none twice: those
that no walk from the entry comes to. The graph of every function is of this kind. -/
theorem unreachable_exact :
    (∀ g : FlowGraph, g.InRange →
      Acc (fun s' s => Turn g.successors (fun _ => False) s s') (.start 0) ∧
      Ended g.successors (fun _ => False) 0 ⟨reachable g.successors g.blocks.size 0, []⟩ ∧
      (∀ s, Turns g.successors (fun _ => False) (.start 0) s → ∀ k, s.Knows k → k < g.blocks.size) ∧
      (∀ s, Ended g.successors (fun _ => False) 0 s →
        g.unreachable = (List.range g.blocks.size).filter (· ∉ s.seen)) ∧
      g.unreachable.Pairwise (· < ·) ∧
      ∀ i, i ∈ g.unreachable ↔ i < g.blocks.size ∧ ¬ ∃ ids, Path g.block 0 ids i) ∧
    ∀ f : FunctionDecl, f.flowGraph.InRange := by
  refine ⟨fun g h => ?_, FunctionDecl.flowGraph_inRange⟩
  have hout : ∀ i, g.blocks.size ≤ i → g.successors i = [] := fun _ => successors_eq_nil
  have hsettles : Settles g.successors (fun _ => False) g.blocks.size 0 _ :=
    settles hout (fun _ => h.successor_lt) h.entry
  refine ⟨hsettles.ends, ended_reachable hout 0, hsettles.range, fun s hs => ?_, ?_, fun i => ?_⟩
  · refine List.filter_congr fun i _ => ?_
    rw [decide_eq_decide, mem_reachable hout, hs.mem_seen_iff]
  · exact List.Pairwise.filter _ List.pairwise_lt_range
  · rw [exists_path_iff, ← mem_reachable hout]
    simp [unreachable]

/-- A loop with a branch that comes back to it twice, and behind a return two blocks that lead to
each other and into the loop. -/
def stranded : FlowGraph :=
  ⟨1, #[⟨[2], [1], false⟩, ⟨[3], [2, 3, 2], false⟩, ⟨[4], [1, 1], false⟩, ⟨[5], [], true⟩,
    ⟨[6], [5, 1], false⟩, ⟨[7], [4], false⟩]⟩

theorem unreachable_exact_stranded :
    stranded.InRange ∧ stranded.unreachable = [4, 5] ∧
    Acc (fun s' s => Turn stranded.successors (fun _ => False) s s') (.start 0) ∧
    (∀ ids, ¬ Path stranded.block 0 ids 5) ∧ ∃ ids, Path stranded.block 0 ids 3 := by
  have hrange : stranded.InRange := ⟨by decide, by decide⟩
  have hlist : stranded.unreachable = [4, 5] := by decide
  obtain ⟨hends, -, -, -, -, hexact⟩ := unreachable_exact.1 stranded hrange
  rw [hlist] at hexact
  refine ⟨hrange, hlist, hends, not_exists.mp ((hexact 5).mp (by decide)).2, ?_⟩
  by_contra hnone
  exact absurd ((hexact 3).mpr ⟨by decide, hnone⟩) (by decide)

end FlowGraph

end Sema
