import Mathlib.Data.List.ProdSigma
import Mathlib.Data.List.Zip
import Sema.Proofs.Agreement

/-!
Comparisons read the other way round. The left type of a comparison is the expected one, and only
records make a difference between the two sides: a record may bring more fields than are expected.
Two types are *level* if the records that meet when they are compared name the same fields; of such
types it does not matter which one is expected. Types without records are always level, so that all
three comparisons are symmetric on them. For arrays and optionals it is not enough that they are
generic: their arguments are compared like any other types, and a wider record is accepted.
-/

namespace Sema

/-! ### Slots that meet -/

namespace Shape

def isRecord : Shape → Bool
  | record .. => true
  | _ => false

/-- Two records name the same fields, each of them once and in any order. -/
def SameFields : Shape → Shape → Prop
  | record _ fieldsA, record _ fieldsB =>
    (fieldsA.map (·.1)).Nodup ∧ (fieldsA.map (·.1)).Perm (fieldsB.map (·.1))
  | _, _ => True

/-- Expected fields and the fields that are found for them. -/
def fieldPairs (expected found : List (String × Slot)) : List (Slot × Slot) :=
  expected.filterMap fun f => (found.lookup f.1).map (f.2, ·)

/-- The slots that meet when two layers are compared. -/
def pairs : Shape → Shape → List (Slot × Slot)
  | function returnsA parametersA, function returnsB parametersB =>
    (returnsA, returnsB) :: (parametersA.map (·.2)).zip (parametersB.map (·.2))
  | generic _ argumentsA, generic _ argumentsB => argumentsA.zip argumentsB
  | record _ fieldsA, record _ fieldsB => fieldPairs fieldsA fieldsB
  | enumItem _ _ payloadA, enumItem _ _ payloadB => payloadA.zip payloadB
  | inlineEnum _ itemsA, inlineEnum _ itemsB => itemsA ×ˢ itemsB
  | _, _ => []

variable {A B : Shape} {x y : Slot}

/-- Where no name is repeated, every field is the one that is found. -/
lemma lookup_of_mem {fields : List (String × Slot)} {name : String}
    (hnodup : (fields.map (·.1)).Nodup) (h : (name, x) ∈ fields) :
    fields.lookup name = some x := by
  obtain ⟨l1, l2, rfl⟩ := List.append_of_mem h
  refine List.lookup_eq_some_iff.mpr ⟨l1, l2, rfl, fun p hp => bne_iff_ne.mpr ?_⟩
  rintro rfl
  rw [List.map_append, List.nodup_append] at hnodup
  exact hnodup.2.2 p.1 (List.mem_map_of_mem hp) p.1 List.mem_cons_self rfl

lemma mem_zip_swap {as bs : List Slot} (h : (x, y) ∈ as.zip bs) : (y, x) ∈ bs.zip as := by
  rw [← List.zip_swap]
  exact List.mem_map.mpr ⟨(x, y), h, rfl⟩

lemma mem_fieldPairs {expected found : List (String × Slot)} :
    (x, y) ∈ fieldPairs expected found ↔
      ∃ name, (name, x) ∈ expected ∧ found.lookup name = some y := by
  simp [fieldPairs]

/-- Slots that meet are components of the two layers. -/
lemma mem_components_of_mem_pairs (h : (x, y) ∈ A.pairs B) :
    x ∈ A.components ∧ y ∈ B.components := by
  unfold pairs at h
  split at h
  · rcases List.mem_cons.mp h with h | h
    · cases h
      exact ⟨List.mem_cons_self, List.mem_cons_self⟩
    · exact (List.of_mem_zip h).imp (List.mem_cons_of_mem _) (List.mem_cons_of_mem _)
  · exact List.of_mem_zip h
  · obtain ⟨name, hx, hy⟩ := mem_fieldPairs.mp h
    exact ⟨List.mem_map_of_mem hx, List.mem_map_of_mem (Relation.mem_of_lookup hy)⟩
  · exact List.of_mem_zip h
  · exact List.pair_mem_product.mp h
  · cases h

lemma sameFields_of_isRecord (h : A.isRecord = false) : A.SameFields B := by
  unfold SameFields
  split
  · cases h
  · trivial

lemma SameFields.symm (h : A.SameFields B) : B.SameFields A := by
  unfold SameFields at h ⊢
  split at h
  · exact ⟨h.2.nodup_iff.mp h.1, h.2.symm⟩
  · next hne =>
    split
    · exact (hne _ _ _ _ rfl rfl).elim
    · trivial

/-- The same slots meet when the comparison is read the other way round. -/
lemma SameFields.mem_pairs_swap (hsame : A.SameFields B) (h : (x, y) ∈ A.pairs B) :
    (y, x) ∈ B.pairs A := by
  unfold pairs at h
  split at h
  · rcases List.mem_cons.mp h with h | h
    · cases h
      exact List.mem_cons_self
    · exact List.mem_cons_of_mem _ (mem_zip_swap h)
  · exact mem_zip_swap h
  · obtain ⟨name, hx, hy⟩ := mem_fieldPairs.mp h
    exact mem_fieldPairs.mpr ⟨name, Relation.mem_of_lookup hy, lookup_of_mem hsame.1 hx⟩
  · exact mem_zip_swap h
  · exact List.pair_mem_product.mpr (List.pair_mem_product.mp h).symm
  · cases h

end Shape

/-! ### One layer, read either way -/

namespace Relation

open TypeStore Shape

variable {r : Relation} {t : TypeStore} {a b x y : Slot} {f : Slot → Slot → Bool}

lemma allAgree_symm {as bs : List Slot}
    (hsymm : ∀ x y, (x, y) ∈ as.zip bs → f x y = true → f y x = true)
    (hall : allAgree f as bs = true) : allAgree f bs as = true := by
  simp only [allAgree, Bool.and_eq_true, decide_eq_true_eq, List.all_eq_true] at hall ⊢
  refine ⟨hall.1.symm, fun p hp => ?_⟩
  have hswap : (p.2, p.1) ∈ as.zip bs := mem_zip_swap hp
  exact hsymm p.2 p.1 hswap (hall.2 _ hswap)

/-- Every field that is there is expected as well, and is the one that was found. -/
lemma fieldsAgree_symm {as bs : List (String × Slot)} (hnodup : (as.map (·.1)).Nodup)
    (hperm : (as.map (·.1)).Perm (bs.map (·.1)))
    (hsymm : ∀ x y, (x, y) ∈ fieldPairs as bs → f x y = true → f y x = true)
    (hall : fieldsAgree f as bs = true) : fieldsAgree f bs as = true := by
  rw [fieldsAgree_iff] at hall ⊢
  rintro ⟨name, y⟩ hy
  -- the name is expected, and what was found for it then is `y`: it comes only once
  obtain ⟨⟨_, x⟩, hx, rfl⟩ := List.mem_map.mp (hperm.symm.subset (List.mem_map_of_mem hy))
  obtain ⟨z, hz, hxz⟩ := hall _ hx
  obtain rfl : z = y := by
    have hfound := lookup_of_mem (hperm.nodup_iff.mp hnodup) hy
    exact Option.some_inj.mp (hz.symm.trans hfound)
  exact ⟨x, lookup_of_mem hnodup hx, hsymm x z (mem_fieldPairs.mpr ⟨_, hx, hz⟩) hxz⟩

/-- A class agrees with its base classes and with the classes derived from it. -/
lemma classesAgree_symm {nameA nameB : String} (h : r.classesAgree t a b nameA nameB = true) :
    r.classesAgree t b a nameB nameA = true := by
  cases r with
  | plain | value =>
    simp only [classesAgree, decide_eq_true_eq] at h ⊢
    exact h.symm
  | hierarchy =>
    simp only [classesAgree, Bool.or_eq_true, decide_eq_true_eq] at h ⊢
    rcases h with (h | h) | h
    · exact .inl (.inl h.symm)
    · exact .inr h
    · exact .inl (.inr h)

lemma Matches.symm {A B : Shape} (hsame : A.SameFields B)
    (hsymm : ∀ x y, (x, y) ∈ A.pairs B → f x y = true → f y x = true)
    (hm : Matches r t f a b A B) : Matches r t f b a B A := by
  cases hm with
  | atom h => exact .atom h
  | function hps hres =>
    refine .function (allAgree_symm (fun x y hxy => ?_) hps) (hsymm _ _ List.mem_cons_self hres)
    exact hsymm x y (List.mem_cons_of_mem _ hxy)
  | generic h => exact .generic (allAgree_symm hsymm h)
  | record h => exact .record (fieldsAgree_symm hsame.1 hsame.2 hsymm h)
  | object h => exact .object (classesAgree_symm h)
  | enum => exact .enum
  | enumItem h => exact .enumItem (allAgree_symm hsymm h)
  | inlineEnum h =>
    obtain ⟨x, hx, y, hy, hxy⟩ := h
    exact .inlineEnum ⟨y, hy, x, hx, hsymm x y (List.pair_mem_product.mpr ⟨hx, hy⟩) hxy⟩

lemma layersAgree_comm (hsame : (t.get a).SameFields (t.get b))
    (hcomm : ∀ x y, (x, y) ∈ (t.get a).pairs (t.get b) → f x y = f y x) :
    r.layersAgree t f a b = r.layersAgree t f b a := by
  rw [Bool.eq_iff_iff, layersAgree_iff, layersAgree_iff]
  refine ⟨.symm hsame fun x y hxy h => ?_, .symm hsame.symm fun y x hyx h => ?_⟩
  · rwa [← hcomm x y hxy]
  · rwa [hcomm x y (hsame.symm.mem_pairs_swap hyx)]

/-! ### Level types -/

/-- Wherever the comparison of two types comes to two records, these name the same fields. -/
inductive Level (r : Relation) (t : TypeStore) : Slot → Slot → Prop
  | intro {a b : Slot} (hsame : (t.get (r.operand t a)).SameFields (t.get (r.operand t b)))
      (hinner : ∀ x y, (x, y) ∈ (t.get (r.operand t a)).pairs (t.get (r.operand t b)) →
        Level r t x y) : Level r t a b

/-- **The comparison of level types can be read either way.** -/
theorem holds_comm (ha : t.Finite a) (hb : t.Finite b) (hlevel : r.Level t a b) :
    r.holds t a b = r.holds t b a := by
  induction hlevel with
  | intro hsame _ ih =>
    rw [holds_eq ha, holds_eq hb, layersAgree_comm hsame fun x y hxy => ?_]
    · rw [decide_eq_decide.mpr eq_comm]
    · obtain ⟨hx, hy⟩ := mem_components_of_mem_pairs hxy
      exact ih x y hxy ((finite_operand ha).inv hx) ((finite_operand hb).inv hy)

/-- No record is met in the type, other than inside a class or an enum. -/
def Recordless (t : TypeStore) (x : Slot) : Prop :=
  ∀ y, t.Part x y → (t.get y).isRecord = false

lemma Recordless.level (ha : t.Finite a) (hplain : Recordless t a) (b : Slot) : r.Level t a b := by
  induction Acc.transGen ha generalizing b with
  | intro a _ ih =>
    -- records meet records only, so it does not matter what is in `b`
    refine .intro (sameFields_of_isRecord (hplain _ (part_operand .refl))) fun x y hxy => ?_
    have hx : t.Inside x (r.operand t a) := (mem_components_of_mem_pairs hxy).1
    obtain ⟨hin, -⟩ := exists_around .nil ha hx
    exact ih x hin ((finite_operand ha).inv hx)
      (fun z hz => hplain z (part_operand (.head hx hz))) y

/-- **Without records, agreement is symmetric**, in each of the three comparisons and whatever the
kinds of the two types are. It is enough that one of them has no record in it. -/
theorem agreement_symm (ha : t.Finite a) (hb : t.Finite b) (hplain : Recordless t a) :
    r.holds t a b = r.holds t b a :=
  holds_comm ha hb (hplain.level ha b)

/-- Two classes, enums that share an item, functions on them and arrays of these functions. -/
def kindred : TypeStore where
  slots := #[.number .int, .number .int, .object 1 none "Animal" [], .object 2 (some 2) "Dog" [],
    .enumItem 0 "Some" [0], .enumItem 0 "Some" [1], .enumItem 0 "None" [],
    .inlineEnum 0 [4, 6], .inlineEnum 0 [5],
    .function 2 [("p", 7)], .function 3 [("q", 8)],
    .generic "Array" [9], .generic "Array" [10], .function 9 []]

theorem agreement_symm_kindred :
    (∀ r : Relation, r.holds kindred 11 12 = r.holds kindred 12 11) ∧
      hierarchy.holds kindred 12 11 = true ∧ value.holds kindred 2 9 = true ∧
      value.holds kindred 2 13 = false := by
  have hfinite : ∀ x, kindred.Finite x := finite_of_lt (by decide)
  have hplain : ∀ x, Recordless kindred x := by
    intro x y _
    by_cases hy : y < kindred.size
    · exact (by decide : ∀ y < kindred.size, (kindred.get y).isRecord = false) y hy
    · rw [kindred.get_eq_unknown (Nat.le_of_not_lt hy)]
      rfl
  refine ⟨fun r => agreement_symm (hfinite 11) (hfinite 12) (hplain 11), ?_, ?_, ?_⟩
  · rw [agreement_symm (hfinite 12) (hfinite 11) (hplain 12)]
    decide +kernel
  · rw [agreement_symm (hfinite 2) (hfinite 9) (hplain 2)]
    decide +kernel
  · rw [agreement_symm (hfinite 2) (hfinite 13) (hplain 2)]
    decide +kernel

/-! ### Arrays and optionals -/

section Generics

variable {nameA nameB : String} {argumentsA argumentsB : List Slot}

lemma holds_generic_iff (ha : t.Finite a) (hgetA : t.get a = .generic nameA argumentsA)
    (hgetB : t.get b = .generic nameB argumentsB) :
    plain.holds t a b = true ↔ nameA = nameB ∧
      List.Forall₂ (fun x y => plain.holds t x y = true) argumentsA argumentsB := by
  have hlayer : plain.holds t a b = true ↔
      a = b ∨ Matches plain t (plain.holds t) a b (t.get a) (t.get b) := by
    rw [holds_iff ha, layersAgree_iff]
    rfl
  rw [hlayer, hgetA, hgetB]
  constructor
  · rintro (rfl | hm)
    · obtain ⟨rfl, rfl⟩ := Shape.generic.inj (hgetA.symm.trans hgetB)
      exact ⟨rfl, List.forall₂_same.mpr fun _ _ => holds_self⟩
    · cases hm with
      | atom h => cases h
      | generic h => exact ⟨rfl, allAgree_iff.mp h⟩
  · rintro ⟨rfl, h⟩
    exact .inr (.generic (allAgree_iff.mpr h))

/-- **Generic types are invariant as far as records are level.** Where the records in them name the
same fields, two generic types agree in both directions or in none, and they agree just if they have
one name and their arguments agree in both directions. -/
theorem generics_invariant (ha : t.Finite a) (hb : t.Finite b)
    (hgetA : t.get a = .generic nameA argumentsA) (hgetB : t.get b = .generic nameB argumentsB)
    (hlevel : plain.Level t a b) :
    plain.holds t a b = plain.holds t b a ∧
      (plain.holds t a b = true ↔ nameA = nameB ∧
        List.Forall₂ (fun x y => plain.holds t x y = true ∧ plain.holds t y x = true)
          argumentsA argumentsB) := by
  refine ⟨holds_comm ha hb hlevel, ?_⟩
  have hcomm : ∀ {x y}, (x, y) ∈ argumentsA.zip argumentsB →
      plain.holds t x y = plain.holds t y x := by
    intro x y hxy
    have hpair : (x, y) ∈ (t.get a).pairs (t.get b) := by rwa [hgetA, hgetB]
    obtain ⟨hx, hy⟩ := mem_components_of_mem_pairs hpair
    cases hlevel with
    | intro _ hinner => exact holds_comm (ha.inv hx) (hb.inv hy) (hinner x y hpair)
  rw [holds_generic_iff ha hgetA hgetB, List.forall₂_iff_zip, List.forall₂_iff_zip]
  refine and_congr_right fun _ => and_congr_right fun _ =>
    ⟨fun h x y hxy => ?_, fun h x y hxy => ?_⟩
  · exact ⟨h hxy, hcomm hxy ▸ h hxy⟩
  · exact (h hxy).1

end Generics

/-- Optional arrays of records with the same fields in different orders. -/
def reordered : TypeStore where
  slots := #[.number .int, .number .int, .string,
    .record 0 [("x", 0), ("label", 2)], .record 1 [("label", 2), ("x", 1)],
    .generic "Array" [3], .generic "Array" [4], .generic "Optional" [5], .generic "Optional" [6]]

theorem generics_invariant_reordered :
    plain.holds reordered 8 7 = true ∧
      plain.holds reordered 5 6 = true ∧ plain.holds reordered 6 5 = true := by
  have hfinite : ∀ x, reordered.Finite x := finite_of_lt (by decide)
  have hx : plain.Level reordered 0 1 := .intro trivial (by rintro x y ⟨⟩)
  have hlabel : plain.Level reordered 2 2 := .intro trivial (by rintro x y ⟨⟩)
  have hrecords : plain.Level reordered 3 4 := by
    refine .intro ⟨by decide, by decide⟩ fun x y hxy => ?_
    have hmem : (x, y) ∈ [(0, 1), (2, 2)] := hxy
    rcases List.mem_cons.mp hmem with h | h
    · cases h
      exact hx
    · cases List.mem_singleton.mp h
      exact hlabel
  have harrays : plain.Level reordered 5 6 := by
    refine .intro trivial fun x y hxy => ?_
    cases List.mem_singleton.mp hxy
    exact hrecords
  have hoptionals : plain.Level reordered 7 8 := by
    refine .intro trivial fun x y hxy => ?_
    cases List.mem_singleton.mp hxy
    exact harrays
  obtain ⟨hcomm, hiff⟩ := generics_invariant (hfinite 7) (hfinite 8) rfl rfl hoptionals
  have hholds : plain.holds reordered 7 8 = true := by decide +kernel
  exact ⟨hcomm ▸ hholds, (List.forall₂_cons.mp (hiff.mp hholds).2).1⟩

/-- An array of records, and an array of records that have a field more. -/
def wider : TypeStore where
  slots := #[.number .int, .string, .record 0 [("x", 0)], .record 0 [("x", 0), ("label", 1)],
    .generic "Array" [2], .generic "Array" [3]]

/-- The array of wider records is accepted for the other one, but not the other way round. -/
theorem generics_covariant_in_records :
    wider.Finite 4 ∧ wider.Finite 5 ∧
      wider.get 4 = .generic "Array" [2] ∧ wider.get 5 = .generic "Array" [3] ∧
      plain.holds wider 4 5 = true ∧ plain.holds wider 5 4 = false := by
  have hfinite : ∀ x, wider.Finite x := finite_of_lt (by decide)
  exact ⟨hfinite 4, hfinite 5, rfl, rfl, by decide +kernel, by decide +kernel⟩

end Relation

end Sema
