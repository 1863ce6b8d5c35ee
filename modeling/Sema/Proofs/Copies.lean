import Sema.Proofs.Agreement

/-!
Copies of types. A slot whose contents were copied from another one shares the components of the
original, and a slot agrees with itself, so the copy and the original agree as soon as their common
layer agrees with itself. Two kinds of layers may not: an inline enum without items has no item to
share, and in a record each field is compared with the first one of its name.
-/

namespace Sema

/-- An inline enum that nothing belongs to. -/
def Shape.isEmptyEnum : Shape → Bool
  | inlineEnum _ [] => true
  | _ => false

namespace TypeStore

variable {t : TypeStore} {x y target source : Slot}

/-- An assignment changes the components of its target only. -/
lemma inside_assign (htarget : target < t.size) (hne : x ≠ target) :
    (t.assign target source).Inside y x ↔ t.Inside y x := by
  rw [Inside, Inside, components, components, get_assign t target source x htarget, if_neg hne]

/-- A finite type stays finite when a slot is written that is not part of it. -/
lemma Finite.assign (htarget : target < t.size) (hx : t.Finite x) (hpart : ¬ t.Part x target) :
    (t.assign target source).Finite x := by
  induction hx with
  | intro x _ ih =>
    have hne : x ≠ target := by
      rintro rfl
      exact hpart .refl
    refine ⟨x, fun y hy => ?_⟩
    have hinside : t.Inside y x := (inside_assign htarget hne).mp hy
    exact ih y hinside fun hy => hpart (.head hinside hy)

lemma Finite.of_get_eq (hx : t.Finite x) (hget : t.get y = t.get x) : t.Finite y := by
  refine ⟨y, fun z hz => hx.inv (y := z) ?_⟩
  rwa [Inside, components, ← hget]

end TypeStore

namespace Relation

open TypeStore

variable {r : Relation} {t : TypeStore} {a b target source : Slot}

/-- Each field of a record agrees with the first one of its name. Where no name is repeated, that is
the field itself. -/
def Coherent (r : Relation) (t : TypeStore) : Shape → Prop
  | .record _ fields => ∀ e ∈ fields, ∀ first ∈ fields.lookup e.1, r.holds t e.2 first = true
  | _ => True

lemma allAgree_self {slots : List Slot} : allAgree (r.holds t) slots slots = true :=
  allAgree_iff.mpr (List.forall₂_same.mpr fun _ _ => holds_self)

lemma Coherent.fieldsAgree {scope : ScopeId} {fields : List (String × Slot)}
    (h : r.Coherent t (.record scope fields)) : fieldsAgree (r.holds t) fields fields = true := by
  refine fieldsAgree_iff.mpr fun e he => ?_
  rcases hfirst : fields.lookup e.1 with _ | first
  · have hne := List.lookup_eq_none_iff.mp hfirst e he
    simp at hne
  · exact ⟨first, rfl, h e he first hfirst⟩

/-- A layer agrees with another one like it, unless there is nothing that the two could share. -/
lemma matches_self_iff {A : Shape} (hfields : r.Coherent t A) :
    Matches r t (r.holds t) a b A A ↔ A.isEmptyEnum = false := by
  cases A with
  | void | unknown | deferred | boolean | string | number =>
    exact iff_of_true (.atom rfl) rfl
  | function returns parameters => exact iff_of_true (.function allAgree_self holds_self) rfl
  | generic name arguments => exact iff_of_true (.generic allAgree_self) rfl
  | record scope fields => exact iff_of_true (.record hfields.fieldsAgree) rfl
  | object scope base name fields => exact iff_of_true (.object classesAgree_self) rfl
  | enum scope name items => exact iff_of_true .enum rfl
  | enumItem scope name payload => exact iff_of_true (.enumItem allAgree_self) rfl
  | inlineEnum scope items =>
    cases items with
    | nil =>
      refine iff_of_false (fun hm => ?_) (by simp [Shape.isEmptyEnum])
      cases hm with
      | atom h => cases h
      | inlineEnum h =>
        obtain ⟨x, hx, -⟩ := h
        cases hx
    | cons x items =>
      exact iff_of_true (.inlineEnum ⟨x, List.mem_cons_self, x, List.mem_cons_self, holds_self⟩) rfl

/-- Slots with the same contents count as one and the same result, or each as itself. -/
lemma operand_of_get_eq (hget : t.get a = t.get b) :
    r.operand t a = r.operand t b ∧ (t.get a).isEmptyEnum = false ∨
      r.operand t a = a ∧ r.operand t b = b := by
  cases r with
  | plain | hierarchy => exact .inr ⟨rfl, rfl⟩
  | value =>
    simp only [operand, valueOf, ← hget]
    cases t.get a with
    | function returns parameters => exact .inl ⟨rfl, rfl⟩
    | _ => exact .inr ⟨rfl, rfl⟩

/-- Two slots with the same contents agree, unless nothing belongs to the type in them. -/
lemma holds_of_get_eq (ha : t.Finite a) (hne : a ≠ b) (hget : t.get a = t.get b)
    (hfields : r.Coherent t (t.get a)) : r.holds t a b = !(t.get a).isEmptyEnum := by
  rcases r.operand_of_get_eq hget with ⟨hoperand, hitems⟩ | ⟨hoperandA, hoperandB⟩
  · rw [hitems]
    exact (holds_iff ha).mpr (.inl hoperand)
  · rw [Bool.eq_iff_iff, holds_iff ha, hoperandA, hoperandB, layersAgree_iff, ← hget,
      matches_self_iff hfields, or_iff_right hne, Bool.not_eq_true']

/-- **A copy of a type agrees with the original**, in both directions and in each of the three
comparisons, once the contents of a finite type have been copied into a slot that is not part of it.
Each field of a record has to agree with the first one of its name, and an inline enum without items
agrees with no other slot. -/
theorem copy_agrees (htarget : target < t.size) (hsource : t.Finite source)
    (hpart : ¬ t.Part source target)
    (hfields : r.Coherent (t.assign target source) (t.get source)) :
    r.holds (t.assign target source) target source = !(t.get source).isEmptyEnum ∧
      r.holds (t.assign target source) source target = !(t.get source).isEmptyEnum := by
  have hne : source ≠ target := by
    rintro rfl
    exact hpart .refl
  have hcopy : (t.assign target source).get target = t.get source := by
    rw [get_assign t target source target htarget, if_pos rfl]
  have horiginal : (t.assign target source).get source = t.get source := by
    rw [get_assign t target source source htarget, if_neg hne]
  have hfinite : (t.assign target source).Finite source := hsource.assign htarget hpart
  have hget := hcopy.trans horiginal.symm
  have hback := holds_of_get_eq (hfinite.of_get_eq hget) hne.symm hget (hcopy ▸ hfields)
  have hforth := holds_of_get_eq hfinite hne hget.symm (horiginal ▸ hfields)
  rw [hcopy] at hback
  rw [horiginal] at hforth
  exact ⟨hback, hforth⟩

/-- Records in which a name comes twice, with one type and with two, an inline enum without items,
and a slot that is free. -/
def templates : TypeStore where
  slots := #[.number .int, .string, .number .int, .record 0 [("x", 0), ("label", 1), ("x", 2)],
    .record 0 [("x", 0), ("x", 1)], .inlineEnum 0 [], .unknown]

theorem copy_agrees_repeatedName :
    templates.Finite 3 ∧ ¬ templates.Part 3 6 ∧ ∀ r : Relation,
      r.holds (templates.assign 6 3) 6 3 = true ∧ r.holds (templates.assign 6 3) 3 6 = true := by
  have hfinite : templates.Finite 3 := finite_of_lt (by decide) 3
  have hpart : ¬ templates.Part 3 6 := mem_parts.not.mp (by decide)
  refine ⟨hfinite, hpart, fun r => copy_agrees (by decide) hfinite hpart ?_⟩
  show ∀ e ∈ [("x", 0), ("label", 1), ("x", 2)], _
  cases r <;> decide +kernel

/-- Neither a record with two types under one name nor an inline enum without items agrees with a
copy of itself, in any comparison. -/
theorem copy_disagrees :
    6 < templates.size ∧ (∀ source, templates.Finite source) ∧
      ∀ source ∈ [4, 5], ¬ templates.Part source 6 ∧ ∀ r : Relation,
        r.holds (templates.assign 6 source) 6 source = false ∧
          r.holds (templates.assign 6 source) source 6 = false := by
  refine ⟨by decide, finite_of_lt (by decide), fun source hsource => ⟨mem_parts.not.mp ?_, ?_⟩⟩
  · revert source
    decide
  · intro r
    revert source
    cases r <;> decide +kernel

end Relation

end Sema
