import Sema.Proofs.Checks
import Sema.Proofs.Ensures

/-!
What the checks at the end of an analysis complain about. A check goes over the tree, and its faults
are those of its hooks, at nodes of the program. The check for completeness says of a node that it
is untyped only if it has no type: no type is written like that.
-/

namespace Sema

/-! ### How an incomplete type is written -/

/-- The brackets that a text opens, and its dots. -/
def marks (text : String) : Nat :=
  text.toList.countP fun c => c = '<' || c = '(' || c = '\x7b' || c = '.'

lemma marks_append (a b : String) : marks (a ++ b) = marks a + marks b := by
  rw [marks, String.toList_append, List.countP_append, ← marks, ← marks]

/-- A list shows what its parts show. -/
lemma marks_le_commaSeparated {text : String} : ∀ {parts : List String}, text ∈ parts →
    marks text ≤ marks (commaSeparated parts)
  | [part], h => by
    rw [List.mem_singleton.mp h]
    simp [commaSeparated, marks]
  | part :: next :: parts, h => by
    have hlist : marks (commaSeparated (part :: next :: parts)) =
        marks part + marks ", " + marks (commaSeparated (next :: parts)) := by
      simp only [commaSeparated, marks, String.toList_intercalate, List.map_cons,
        List.intercalate_cons_cons, List.countP_append]
    rcases List.mem_cons.mp h with rfl | h
    · omega
    · have := marks_le_commaSeparated h
      omega

namespace Shape

variable {shape : Shape} {inner : Slot → String} {s : Slot}

lemma display_of_isPlaceholder (h : shape.isPlaceholder = true) :
    shape.display inner = "<unknown>" ∨ shape.display inner = "<deferred>" := by
  cases shape with
  | unknown => exact .inl rfl
  | deferred => exact .inr rfl
  | _ => cases h

/-- What is written of a type shows its components inside a pair of brackets. -/
lemma marks_lt_display (h : s ∈ shape.components) :
    marks (inner s) < marks (shape.display inner) := by
  -- the piece that opens the bracket counts one, and the list after it as much as the component
  cases shape with
  | function returns parameters =>
    have hopen : marks "(" = 1 := by decide
    simp only [display, marks_append]
    rcases List.mem_cons.mp h with rfl | h
    · omega
    · obtain ⟨p, hp, rfl⟩ := List.mem_map.mp h
      have := marks_le_commaSeparated (List.mem_map_of_mem (f := fun p => inner p.2) hp)
      omega
  | generic name arguments =>
    have h : s ∈ arguments := h
    have hopen : marks "<" = 1 := by decide
    have := marks_le_commaSeparated (List.mem_map_of_mem (f := inner) h)
    simp only [display, marks_append]
    omega
  | record scope fields =>
    have hopen : marks "\x7b" = 1 := by decide
    obtain ⟨f, hf, rfl⟩ := List.mem_map.mp h
    have := marks_le_commaSeparated
      (List.mem_map_of_mem (f := fun f => f.1 ++ ": " ++ inner f.2) hf)
    simp only [display, marks_append] at this ⊢
    omega
  | enumItem scope name payload =>
    have h : s ∈ payload := h
    have hopen : marks "(" = 1 := by decide
    have := marks_le_commaSeparated (List.mem_map_of_mem (f := inner) h)
    have hne : ¬ payload.isEmpty = true := by
      rw [List.isEmpty_iff]
      exact List.ne_nil_of_mem h
    simp only [display, if_neg hne, marks_append]
    omega
  | inlineEnum scope items =>
    have h : s ∈ items := h
    have hopen : marks "enum \x7b " = 1 := by decide
    have := marks_le_commaSeparated (List.mem_map_of_mem (f := inner) h)
    simp only [display, marks_append]
    omega
  | _ => cases h

end Shape

namespace TypeStore

variable {t : TypeStore} {s : Slot}

/-- An incomplete type is a placeholder or has an incomplete component. -/
lemma isIncomplete_cases (h : t.isIncomplete s = true) :
    (t.get s).isPlaceholder = true ∨ ∃ x ∈ (t.get s).components, t.isIncomplete x = true := by
  obtain ⟨y, hpart, hy⟩ := isIncomplete_iff.mp h
  rcases Relation.ReflTransGen.cases_head hpart with rfl | ⟨x, hx, hpart⟩
  · exact .inl hy
  · exact .inr ⟨x, hx, isIncomplete_iff.mpr ⟨y, hpart, hy⟩⟩

/-- However deep an incomplete type is written, it shows a bracket or is cut short. -/
lemma marks_displayWithin : ∀ (fuel : Nat) (path : List Slot) {s : Slot},
    t.isIncomplete s = true → 0 < marks (t.displayWithin fuel path s)
  | 0, path, s, _ => by
    rw [displayWithin]
    decide
  | fuel + 1, path, s, h => by
    rw [displayWithin]
    split
    · decide
    · rcases isIncomplete_cases h with hs | ⟨x, hx, -⟩
      · rcases Shape.display_of_isPlaceholder hs with heq | heq <;> rw [heq] <;> decide
      · exact Nat.lt_of_le_of_lt (Nat.zero_le _) (Shape.marks_lt_display hx)

/-- **No incomplete type is written like a missing one**: a placeholder has a text of its own, and
in any other incomplete type there are at least two brackets. -/
lemma display_ne_untyped (h : t.isIncomplete s = true) : t.display s ≠ "<untyped>" := by
  have huntyped : marks "<untyped>" = 1 := by decide
  rw [display, displayWithin, if_neg List.not_mem_nil]
  rcases isIncomplete_cases h with hs | ⟨x, hx, hinc⟩
  · rcases Shape.display_of_isPlaceholder hs with heq | heq <;> rw [heq] <;> decide
  · intro heq
    -- one bracket is inside of another one
    have hinner := marks_displayWithin (t := t) t.size [s] hinc
    have hlt : marks (t.displayWithin t.size [s] x) < marks "<untyped>" :=
      heq ▸ Shape.marks_lt_display hx
    omega

end TypeStore

/-! ### The two checks -/

/-- Where every node has a type, the checks complain about incomplete types and nulls only. -/
lemma Program.check_fault {E : Cause → Prop} [Cause.Regular E] {p : Program} {c : Context}
    {f : Fault} (htyped : ∀ n ∈ p.nodes, ∃ x, c.nodeType? n = some x)
    (h : p.checkComplete c = .error f ∨ p.checkNulls c = .error f) : E f.cause := by
  refine Cause.Regular.ordinary ?_
  rcases h with h | h
  · obtain ⟨y, node, text, ⟨_, _, hwalk, ⟨node', text', ht', hnot⟩, -⟩, ht, -, hcause⟩ :=
      (p.checkComplete_exact c).2 f h
    obtain ⟨rfl, rfl⟩ := Prod.mk.inj (Option.some.inj (ht.symm.trans ht'))
    obtain ⟨x, hx⟩ := htyped node.id ((Piece.program p).mem_nodes_iff.mpr
      ⟨y, by rw [hwalk]; simp, _, ht, rfl⟩)
    have hinc : c.types.isIncomplete x = true := by
      by_contra hinc
      exact hnot ⟨x, hx, fun z hz => Bool.eq_false_iff.mpr fun hplace =>
        hinc (TypeStore.isIncomplete_iff.mpr ⟨z, hz, hplace⟩)⟩
    rw [hcause]
    simp [Cause.isInternal, Cause.isCyclic, Cause.isRedeclared, Context.displayType?, hx,
      TypeStore.display_ne_untyped hinc]
  · obtain ⟨e, x, -, -, -, hcause⟩ := (p.checkNulls_exact c).2 f h
    rw [hcause]
    rfl

end Sema
