import Mathlib.Data.List.Forall2
import Sema.Proofs.Keeps

/-!
When types agree. The depth of a comparison is bounded by the number of pairs of slots, and on a
type that is not part of itself this bound is never met: there the comparison is what one layer of
it says, given the comparisons of the components. With that, the agreement of such types is
transitive as long as classes are compared by name and no inline enum is met: two inline enums
agree as soon as they share one item. And the comparison of stored values is the strictest of the
three.
-/

namespace Sema

/-! ### One layer of a comparison -/

namespace Shape

/-- A type that refers to nothing and goes by no name of the program. -/
def isAtom : Shape → Bool
  | void | unknown | deferred | boolean | string | number _ => true
  | _ => false

def isInlineEnum : Shape → Bool
  | inlineEnum .. => true
  | _ => false

end Shape

namespace TypeStore

variable {t : TypeStore} {x y : Slot}

/-- A store in which every type was made after its components has finite types only. -/
lemma finite_of_lt (h : ∀ x < t.size, ∀ y ∈ t.components x, y < x) (x : Slot) : t.Finite x := by
  induction x using Nat.strong_induction_on with
  | h x ih => exact ⟨x, fun y hy => ih y (h x (Inside.lt hy) y hy)⟩

lemma valueOf_cases : t.valueOf x = x ∨ t.Inside (t.valueOf x) x := by
  unfold valueOf Inside components
  split
  · next returns _ hget =>
    rw [hget]
    exact .inr List.mem_cons_self
  · exact .inl rfl

end TypeStore

namespace Relation

open TypeStore

variable {r : Relation} {t : TypeStore} {a b c x y : Slot} {f g h : Slot → Slot → Bool}

lemma operand_cases : r.operand t a = a ∨ t.Inside (r.operand t a) a := by
  cases r with
  | value => exact valueOf_cases
  | plain | hierarchy => exact .inl rfl

/-- The parts of what counts for a type are parts of the type. -/
lemma part_operand (hy : t.Part (r.operand t a) y) : t.Part a y := by
  rcases r.operand_cases (t := t) (a := a) with heq | hin
  · rwa [heq] at hy
  · exact .head hin hy

/-- What counts for a component lies inside the type. -/
lemma operand_inside (hx : t.Inside x a) : Relation.TransGen t.Inside (r.operand t x) a := by
  rcases r.operand_cases (t := t) (a := x) with heq | hin
  · rw [heq]
    exact .single hx
  · exact .head hin (.single hx)

/-- What counts for a finite type is finite. -/
lemma finite_operand (ha : t.Finite a) : t.Finite (r.operand t a) := by
  rcases r.operand_cases (t := t) (a := a) with heq | hin
  · rwa [heq]
  · exact ha.inv hin

lemma allAgree_iff {as bs : List Slot} :
    allAgree f as bs = true ↔ List.Forall₂ (fun x y => f x y = true) as bs := by
  simp [allAgree, List.forall₂_iff_zip]

lemma fieldsAgree_iff {expected found : List (String × Slot)} :
    fieldsAgree f expected found = true ↔
      ∀ e ∈ expected, ∃ y, found.lookup e.1 = some y ∧ f e.2 y = true := by
  simp [fieldsAgree, Option.any_eq_true]

/-- What it is for the layers `A` in `a` and `B` in `b` to agree. -/
inductive Matches (r : Relation) (t : TypeStore) (f : Slot → Slot → Bool) (a b : Slot) :
    Shape → Shape → Prop
  | atom {A : Shape} (h : A.isAtom = true) : Matches r t f a b A A
  | function {returnsA returnsB : Slot} {parametersA parametersB : List (String × Slot)}
      (hparameters : allAgree f (parametersA.map (·.2)) (parametersB.map (·.2)) = true)
      (hreturns : f returnsA returnsB = true) :
      Matches r t f a b (.function returnsA parametersA) (.function returnsB parametersB)
  | generic {name : String} {argumentsA argumentsB : List Slot}
      (h : allAgree f argumentsA argumentsB = true) :
      Matches r t f a b (.generic name argumentsA) (.generic name argumentsB)
  | record {scopeA scopeB : ScopeId} {fieldsA fieldsB : List (String × Slot)}
      (h : fieldsAgree f fieldsA fieldsB = true) :
      Matches r t f a b (.record scopeA fieldsA) (.record scopeB fieldsB)
  | object {scopeA scopeB : ScopeId} {baseA baseB : Option Slot} {nameA nameB : String}
      {fieldsA fieldsB : List (String × Slot)} (h : r.classesAgree t a b nameA nameB = true) :
      Matches r t f a b (.object scopeA baseA nameA fieldsA) (.object scopeB baseB nameB fieldsB)
  | enum {scopeA scopeB : ScopeId} {name : String} {itemsA itemsB : List Slot} :
      Matches r t f a b (.enum scopeA name itemsA) (.enum scopeB name itemsB)
  | enumItem {scopeA scopeB : ScopeId} {name : String} {payloadA payloadB : List Slot}
      (h : allAgree f payloadA payloadB = true) :
      Matches r t f a b (.enumItem scopeA name payloadA) (.enumItem scopeB name payloadB)
  | inlineEnum {scopeA scopeB : ScopeId} {itemsA itemsB : List Slot}
      (h : ∃ x ∈ itemsA, ∃ y ∈ itemsB, f x y = true) :
      Matches r t f a b (.inlineEnum scopeA itemsA) (.inlineEnum scopeB itemsB)

lemma layersAgree_iff :
    r.layersAgree t f a b = true ↔ Matches r t f a b (t.get a) (t.get b) := by
  unfold layersAgree
  generalize t.get a = A
  generalize t.get b = B
  constructor
  · intro hl
    split at hl
    · exact .atom rfl
    · exact .atom rfl
    · exact .atom rfl
    · exact .atom rfl
    · exact .atom rfl
    · obtain rfl := of_decide_eq_true hl
      exact .atom rfl
    · obtain ⟨hps, hr⟩ := Bool.and_eq_true_iff.mp hl
      exact .function hps hr
    · obtain ⟨hname, h⟩ := Bool.and_eq_true_iff.mp hl
      obtain rfl := of_decide_eq_true hname
      exact .generic h
    · exact .record hl
    · exact .object hl
    · obtain rfl := of_decide_eq_true hl
      exact .enum
    · obtain ⟨hname, h⟩ := Bool.and_eq_true_iff.mp hl
      obtain rfl := of_decide_eq_true hname
      exact .enumItem h
    · exact .inlineEnum (by simpa using hl)
    · cases hl
  · intro hm
    cases hm with
    | atom h => cases A <;> first | rfl | exact decide_eq_true rfl | cases h
    | function hps hr => simp [hps, hr]
    | generic h | enumItem h => simp [h]
    | record h | object h => exact h
    | enum => simp
    | inlineEnum h => simpa using h

lemma Matches.imp {A B : Shape}
    (hfg : ∀ x y, x ∈ A.components → y ∈ B.components → f x y = true → g x y = true)
    (hm : Matches r t f a b A B) : Matches r t g a b A B := by
  cases hm with
  | atom h => exact .atom h
  | function hps hr =>
    exact .function (allAgree_mono (fun _ => List.mem_cons_of_mem _)
      (fun _ => List.mem_cons_of_mem _) hfg hps) (hfg _ _ List.mem_cons_self List.mem_cons_self hr)
  | generic h => exact .generic (allAgree_mono (fun _ => id) (fun _ => id) hfg h)
  | record h =>
    exact .record (fieldsAgree_mono (fun _ => List.mem_map_of_mem) (fun _ => List.mem_map_of_mem)
      hfg h)
  | object h => exact .object h
  | enum => exact .enum
  | enumItem h => exact .enumItem (allAgree_mono (fun _ => id) (fun _ => id) hfg h)
  | inlineEnum h =>
    obtain ⟨x, hx, y, hy, hag⟩ := h
    exact .inlineEnum ⟨x, hx, y, hy, hfg x y hx hy hag⟩

/-- What one layer says depends on the comparisons of the components only. -/
lemma layersAgree_congr (hfg : ∀ x y, x ∈ t.components a → y ∈ t.components b → f x y = g x y) :
    r.layersAgree t f a b = r.layersAgree t g a b :=
  Bool.eq_iff_iff.mpr <| layersAgree_iff.trans <| .trans
    ⟨.imp fun x y hx hy hf => hfg x y hx hy ▸ hf, .imp fun x y hx hy hg => hfg x y hx hy ▸ hg⟩
    layersAgree_iff.symm

/-- Around the components of what counts for a type, the way from the outside is longer. -/
lemma exists_around {path : List Slot} (hpath : t.Around path a) (ha : t.Finite a)
    (hx : t.Inside x (r.operand t a)) :
    Relation.TransGen t.Inside x a ∧ ∃ path', t.Around path' x ∧ path.length < path'.length := by
  rcases r.operand_cases (t := t) (a := a) with heq | hin
  · rw [heq] at hx
    exact ⟨.single hx, a :: path, hpath.inner ha.irrefl hx, by simp⟩
  · refine ⟨.head hx (.single hin), _, (hpath.inner ha.irrefl hin).inner
      (TypeStore.Finite.irrefl (ha.inv hin)) hx, ?_⟩
    simp only [List.length_cons]
    omega

/-- Any two bounds that leave room for all slots give one answer on a finite type. -/
lemma holdsWithin_eq (ha : t.Finite a) : ∀ {b : Slot} {m n : Nat} {path : List Slot},
    t.Around path a → t.size < m + path.length → t.size < n + path.length →
      r.holdsWithin t m a b = r.holdsWithin t n a b := by
  induction Acc.transGen ha with
  | intro a _ ih =>
    intro b m n path hpath hm hn
    have hlength := hpath.length_le
    obtain ⟨m, rfl⟩ : ∃ k, m = k + 1 := ⟨m - 1, by omega⟩
    obtain ⟨n, rfl⟩ : ∃ k, n = k + 1 := ⟨n - 1, by omega⟩
    rw [holdsWithin, holdsWithin]
    congr 1
    refine layersAgree_congr fun x y hx _ => ?_
    obtain ⟨hin, path', hpath', hlt⟩ := exists_around hpath ha hx
    exact ih x hin ((finite_operand ha).inv hx) hpath' (by omega) (by omega)

/-- **The comparison of a finite type is what one layer of it says**, given the comparisons of the
components. -/
theorem holds_eq (ha : t.Finite a) :
    r.holds t a b = (decide (r.operand t a = r.operand t b) ||
      r.layersAgree t (r.holds t) (r.operand t a) (r.operand t b)) := by
  rw [holds, holdsWithin]
  congr 1
  refine layersAgree_congr fun x y hx _ => ?_
  obtain ⟨-, path, hpath, hlt⟩ := exists_around .nil ha hx
  have hsize : t.size ≤ t.size * t.size := Nat.le_mul_self _
  exact holdsWithin_eq ((finite_operand ha).inv hx) hpath (by omega) (by omega)

lemma holds_iff (ha : t.Finite a) :
    r.holds t a b = true ↔ r.operand t a = r.operand t b ∨
      r.layersAgree t (r.holds t) (r.operand t a) (r.operand t b) = true := by
  rw [holds_eq ha, Bool.or_eq_true, decide_eq_true_eq]

lemma holds_self : r.holds t a a = true := by
  simp [holds, holdsWithin]

/-! ### Transitivity -/

lemma allAgree_trans {as bs cs : List Slot}
    (htrans : ∀ x ∈ as, ∀ y ∈ bs, ∀ z, f x y = true → g y z = true → h x z = true)
    (hf : allAgree f as bs = true) (hg : allAgree g bs cs = true) : allAgree h as cs = true := by
  rw [allAgree_iff] at hf hg ⊢
  induction hf generalizing cs with
  | nil =>
    cases hg
    exact .nil
  | cons hxy _ ih =>
    cases hg with
    | cons hyz hg =>
      refine .cons (htrans _ List.mem_cons_self _ List.mem_cons_self _ hxy hyz) (ih ?_ hg)
      exact fun x hx y hy => htrans x (List.mem_cons_of_mem _ hx) y (List.mem_cons_of_mem _ hy)

/-- The field that was found for an expected one is itself expected next, whatever stands around
it and however often its name is repeated: it is always the first of its name that is found. -/
lemma fieldsAgree_trans {as bs cs : List (String × Slot)}
    (htrans : ∀ x ∈ as.map (·.2), ∀ y ∈ bs.map (·.2), ∀ z,
      f x y = true → g y z = true → h x z = true)
    (hf : fieldsAgree f as bs = true) (hg : fieldsAgree g bs cs = true) :
    fieldsAgree h as cs = true := by
  rw [fieldsAgree_iff] at hf hg ⊢
  intro e he
  obtain ⟨y, hy, hfy⟩ := hf e he
  have hmem : (e.1, y) ∈ bs := mem_of_lookup hy
  obtain ⟨z, hz, hgz⟩ := hg (e.1, y) hmem
  exact ⟨z, hz, htrans _ (List.mem_map_of_mem he) _ (List.mem_map_of_mem hmem) z hfy hgz⟩

lemma classesAgree_trans (hr : r ≠ .hierarchy) {nameA nameB nameC : String}
    (hab : r.classesAgree t a b nameA nameB = true)
    (hbc : r.classesAgree t b c nameB nameC = true) :
    r.classesAgree t a c nameA nameC = true := by
  cases r with
  | plain | value =>
    simp only [classesAgree, decide_eq_true_eq] at hab hbc ⊢
    exact hab.trans hbc
  | hierarchy => exact absurd rfl hr

/-- Two layers that agree one after the other, where the components do. -/
lemma Matches.trans (hr : r ≠ .hierarchy) {A B C : Shape} (hA : A.isInlineEnum = false)
    (htrans : ∀ x ∈ A.components, ∀ y ∈ B.components, ∀ z,
      f x y = true → g y z = true → h x z = true)
    (hab : Matches r t f a b A B) (hbc : Matches r t g b c B C) : Matches r t h a c A C := by
  cases hab with
  | atom hatom =>
    cases hbc with
    | atom => exact .atom hatom
    | _ => cases hatom
  | function hps hres =>
    cases hbc with
    | atom hatom => cases hatom
    | function hps' hres' =>
      refine .function (allAgree_trans (fun x hx y hy => ?_) hps hps') ?_
      · exact htrans x (List.mem_cons_of_mem _ hx) y (List.mem_cons_of_mem _ hy)
      · exact htrans _ List.mem_cons_self _ List.mem_cons_self _ hres hres'
  | generic hargs =>
    cases hbc with
    | atom hatom => cases hatom
    | generic hargs' => exact .generic (allAgree_trans htrans hargs hargs')
  | record hfields =>
    cases hbc with
    | atom hatom => cases hatom
    | record hfields' => exact .record (fieldsAgree_trans htrans hfields hfields')
  | object hclass =>
    cases hbc with
    | atom hatom => cases hatom
    | object hclass' => exact .object (classesAgree_trans hr hclass hclass')
  | enum =>
    cases hbc with
    | atom hatom => cases hatom
    | enum => exact .enum
  | enumItem hpayload =>
    cases hbc with
    | atom hatom => cases hatom
    | enumItem hpayload' => exact .enumItem (allAgree_trans htrans hpayload hpayload')
  | inlineEnum => cases hA

/-- No inline enum is met in the type, other than inside a class or an enum. -/
def Enumless (t : TypeStore) (x : Slot) : Prop :=
  ∀ y, t.Part x y → (t.get y).isInlineEnum = false

lemma Enumless.inner (ha : Enumless t a) (hx : t.Inside x a) : Enumless t x :=
  fun y hy => ha y (.head hx hy)

lemma Enumless.operand (ha : Enumless t a) : Enumless t (r.operand t a) :=
  fun y hy => ha y (part_operand hy)

/-- **Finite types agree transitively.** The comparison of stored values and the one of operands
may be put one after the other, in every store and from every expected type that is finite and has
no inline enum in it. Records may have more fields at each step, in any order and with repeated
names. -/
theorem agreement_trans (hr : r ≠ .hierarchy) (ha : t.Finite a) (hb : t.Finite b)
    (hplain : Enumless t a) (hab : r.holds t a b = true) (hbc : r.holds t b c = true) :
    r.holds t a c = true := by
  induction Acc.transGen ha generalizing b c with
  | intro a _ ih =>
    rw [holds_iff ha] at hab ⊢
    rw [holds_iff hb] at hbc
    rcases hab with hab | hab
    · rwa [hab]
    rcases hbc with hbc | hbc
    · exact .inr (hbc ▸ hab)
    rw [layersAgree_iff] at hab hbc ⊢
    refine .inr (hab.trans hr (hplain.operand _ .refl) (fun x hx y hy z => ?_) hbc)
    obtain ⟨hin, -⟩ := exists_around .nil ha hx
    exact ih x hin ((finite_operand ha).inv hx) ((finite_operand hb).inv hy)
      (hplain.operand.inner hx)

/-- Records that bring more fields each, in other orders and with names that come twice, and
functions on them. -/
def widening : TypeStore where
  slots := #[.number .int, .string, .number .int, .boolean,
    .record 0 [("x", 0)],
    .record 1 [("y", 1), ("x", 2), ("x", 0)],
    .record 2 [("x", 0), ("z", 3), ("y", 1), ("y", 3)],
    .function 4 [("p", 4)], .function 5 [("q", 5)], .function 6 [("p", 6)]]

theorem agreement_trans_widening :
    plain.holds widening 7 9 = true ∧ value.holds widening 7 9 = true := by
  have hfinite : ∀ x, widening.Finite x := finite_of_lt (by decide)
  have henums : Enumless widening 7 := by
    intro y _
    by_cases hy : y < widening.size
    · exact (by decide : ∀ y < widening.size, (widening.get y).isInlineEnum = false) y hy
    · rw [widening.get_eq_unknown (Nat.le_of_not_lt hy)]
      rfl
  exact ⟨agreement_trans (b := 8) (by decide) (hfinite 7) (hfinite 8) henums (by decide +kernel)
      (by decide +kernel),
    agreement_trans (b := 8) (by decide) (hfinite 7) (hfinite 8) henums (by decide +kernel)
      (by decide +kernel)⟩

/-! ### The strictest comparison -/

lemma classesAgree_self {name : String} : r.classesAgree t a b name name = true := by
  cases r <;> simp [classesAgree]

/-- The comparisons differ in the rule for classes only, and all of them accept the same name. -/
lemma Matches.of_plain {A B : Shape} (hm : Matches plain t f a b A B) : Matches r t f a b A B := by
  cases hm with
  | atom h => exact .atom h
  | function hps hres => exact .function hps hres
  | generic h => exact .generic h
  | record h => exact .record h
  | object h =>
    obtain rfl := of_decide_eq_true h
    exact .object classesAgree_self
  | enum => exact .enum
  | enumItem h => exact .enumItem h
  | inlineEnum h => exact .inlineEnum h

/-- Where two types agree, so does what counts for them: either both are functions, whose results
agree, or neither is. -/
lemma holds_operand (ha : t.Finite a) (hab : plain.holds t a b = true) :
    plain.holds t (r.operand t a) (r.operand t b) = true := by
  cases r with
  | plain | hierarchy => exact hab
  | value =>
    rcases (holds_iff ha).mp hab with rfl | hlayer
    · exact holds_self
    rw [layersAgree_iff] at hlayer
    simp only [operand, valueOf] at hlayer ⊢
    generalize t.get a = A, t.get b = B at hlayer
    cases hlayer with
    | function _ hres => exact hres
    | atom hatom =>
      cases A with
      | void | unknown | deferred | boolean | string | number => exact hab
      | _ => cases hatom
    | _ => exact hab

/-- The outermost layers agree as they are, before functions give way to their results; below them
functions do so at every depth. -/
lemma layer_of_plain (ha : t.Finite a) (hab : plain.holds t a b = true) :
    a = b ∨ r.layersAgree t (r.holds t) a b = true := by
  induction Acc.transGen ha generalizing b with
  | intro a _ ih =>
    refine ((holds_iff ha).mp hab).imp_right fun hlayer => ?_
    rw [layersAgree_iff] at hlayer ⊢
    refine (hlayer.imp fun x y hx _ hxy => ?_).of_plain
    have hfinite : t.Finite x := ha.inv hx
    -- a component may be a function, so the induction goes on with what counts for it
    exact (holds_iff hfinite).mpr
      (ih _ (operand_inside hx) (finite_operand hfinite) (holds_operand hfinite hxy))

/-- **Types that agree as stored values agree in every way**: as operands, where functions count as
their results at every depth, and in the hierarchy of classes. -/
theorem agreement_widens (ha : t.Finite a) (hab : plain.holds t a b = true) :
    r.holds t a b = true :=
  (holds_iff ha).mpr (layer_of_plain (finite_operand ha) (holds_operand ha hab))

/-- Records of arrays of functions that take functions and return functions. -/
def nestedFunctions : TypeStore where
  slots := #[.number .int, .number .int,
    .function 0 [], .function 1 [],
    .function 2 [("p", 2)], .function 3 [("q", 3)],
    .generic "Array" [4], .generic "Array" [5],
    .record 0 [("f", 6)], .record 1 [("g", 0), ("f", 7)]]

theorem agreement_widens_nestedFunctions :
    value.holds nestedFunctions 8 9 = true ∧ hierarchy.holds nestedFunctions 8 9 = true := by
  have hfinite : nestedFunctions.Finite 8 := finite_of_lt (by decide) 8
  have hplain : plain.holds nestedFunctions 8 9 = true := by decide +kernel
  exact ⟨agreement_widens hfinite hplain, agreement_widens hfinite hplain⟩

end Relation

end Sema
