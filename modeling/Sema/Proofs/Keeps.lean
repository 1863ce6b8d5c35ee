import Mathlib.Order.Nat
import Sema.Proofs.Parts
import Sema.Proofs.Slots
import Sema.Typing.Infer

/-!
Types that stay what they are. When the annotation of a variable is resolved once more, what is
stored for it again may differ in two ways that no rule looks at: in the scope that a record or an
enum item was resolved in, and in the slot that stands for the missing result of a function type.
A set of slots that is closed under components and whose contents only change in this way keeps
everything that was found out about the types in it. Where two classes or enums have one name, the
annotation may come to stand for another of them (`q` says that this does not happen); then the
placeholders in the types are kept, and the rules that go by names only.
-/

namespace Sema

variable {s : Shape} {Z : Slot → Prop} {t t' : TypeStore}

lemma Shape.isVoid_iff : s.isVoid = true ↔ s = .void := by
  cases s <;> simp [isVoid]

lemma Shape.isBoolean_iff : s.isBoolean = true ↔ s = .boolean := by
  cases s <;> simp [isBoolean]

/-- The shape without the scope in which a record or an enum item was resolved. -/
def Shape.unscoped : Shape → Shape
  | record _ fields => record 0 fields
  | enumItem _ name payload => enumItem 0 name payload
  | inlineEnum _ items => inlineEnum 0 items
  | shape => shape

/-- What a slot holds in `t` and what it holds in `t'` are the same type, given that the slots in
them are. -/
inductive Alike (q : Prop) (t t' : TypeStore) : Shape → Shape → Prop
  | same {a b : Shape} (h : a.unscoped = b.unscoped) : Alike q t t' a b
  /-- The slot for the missing result was allocated anew. -/
  | result {r r' : Slot} {parameters : List (String × Slot)} (hr : t.get r = .void)
      (hr' : t'.get r' = .void) :
      Alike q t t' (.function r parameters) (.function r' parameters)
  /-- A class or an enum of the same name. -/
  | renamed {a b : Shape} {name : String} (hq : ¬ q) (ha : a.nominalName? = some name)
      (hb : b.nominalName? = some name) : Alike q t t' a b

/-- What a shape that is alike can be. -/
def AlikeForm (t t' : TypeStore) (b : Shape) : Shape → Prop
  | .record _ fields => ∃ s, b = .record s fields
  | .enumItem _ name payload => ∃ s, b = .enumItem s name payload
  | .inlineEnum _ items => ∃ s, b = .inlineEnum s items
  | .function r ps => ∃ r', b = .function r' ps ∧ (r' = r ∨ t.get r = .void ∧ t'.get r' = .void)
  | a => b = a

/-- A shape without scope and result is the same shape. -/
lemma AlikeForm.eq {a b : Shape} (h : AlikeForm t t' b a) (ha : match a with
      | .record .. | .enumItem .. | .inlineEnum .. | .function .. => False
      | _ => True := by trivial) : b = a := by
  cases a <;> first | exact h | cases ha

/-- Only classes and enums have names. -/
lemma Shape.nominal_cases {name : String} (h : s.nominalName? = some name) :
    (∃ scope base fields, s = .object scope base name fields) ∨
      ∃ scope items, s = .enum scope name items := by
  cases s <;> simp_all [Shape.nominalName?]

namespace Alike

variable {q : Prop} {t t' : TypeStore} {a b : Shape} {y : Slot}

lemma of_eq (h : b = a) : Alike q t t' a b := .same (congrArg _ h.symm)

/-- What looks neither at scopes nor at the result of a function sees no difference. -/
lemma congr {β : Type} (h : Alike q t t' a b) (f : Shape → β) (hu : ∀ s, f s.unscoped = f s)
    (hf : ∀ r r' ps, f (.function r ps) = f (.function r' ps))
    (hn : ∀ {name}, ¬ q → a.nominalName? = some name → b.nominalName? = some name →
      f b = f a) : f b = f a := by
  cases h with
  | same h => rw [← hu b, ← h, hu]
  | result => exact hf _ _ _
  | renamed hq ha hb => exact hn hq ha hb

/-- What says the same of all classes and enums sees no difference either. -/
lemma congr_nominal {β : Type} (h : Alike q t t' a b) (f : Shape → β) (d : β)
    (hu : ∀ s, f s.unscoped = f s) (hf : ∀ r r' ps, f (.function r ps) = f (.function r' ps))
    (ho : ∀ sc base name fields, f (.object sc base name fields) = d)
    (he : ∀ sc name items, f (.enum sc name items) = d) : f b = f a := by
  have hnom : ∀ {s : Shape} {name}, s.nominalName? = some name → f s = d := by
    intro s name hs
    rcases s.nominal_cases hs with ⟨_, _, _, rfl⟩ | ⟨_, _, rfl⟩
    · exact ho _ _ _ _
    · exact he _ _ _
  exact h.congr f hu hf fun _ ha hb => (hnom hb).trans (hnom ha).symm

lemma base? (hq : q) (h : Alike q t t' a b) : b.base? = a.base? :=
  h.congr Shape.base? (fun s => by cases s <;> rfl) (fun _ _ _ => rfl) fun hn => absurd hq hn

lemma nominalName? (h : Alike q t t' a b) : b.nominalName? = a.nominalName? :=
  h.congr Shape.nominalName? (fun s => by cases s <;> rfl) (fun _ _ _ => rfl)
    fun _ ha hb => hb.trans ha.symm

lemma isVoid (h : Alike q t t' a b) : b.isVoid = a.isVoid :=
  h.congr_nominal Shape.isVoid false (fun s => by cases s <;> rfl) (fun _ _ _ => rfl)
    (fun _ _ _ _ => rfl) fun _ _ _ => rfl

lemma isPlaceholder (h : Alike q t t' a b) : b.isPlaceholder = a.isPlaceholder :=
  h.congr_nominal Shape.isPlaceholder false (fun s => by cases s <;> rfl) (fun _ _ _ => rfl)
    (fun _ _ _ _ => rfl) fun _ _ _ => rfl

lemma isDeferred (h : Alike q t t' a b) : b.isDeferred = a.isDeferred :=
  h.congr_nominal Shape.isDeferred false (fun s => by cases s <;> rfl) (fun _ _ _ => rfl)
    (fun _ _ _ _ => rfl) fun _ _ _ => rfl

lemma argumentOf? (h : Alike q t t' a b) (name : String) :
    b.argumentOf? name = a.argumentOf? name :=
  h.congr_nominal (Shape.argumentOf? name) none (fun s => by cases s <;> rfl) (fun _ _ _ => rfl)
    (fun _ _ _ _ => rfl) fun _ _ _ => rfl

/-- A component is a component of the other shape, or stands for a missing result. -/
lemma mem_components (h : Alike q t t' a b) (hy : y ∈ b.components) :
    y ∈ a.components ∨ t'.get y = .void := by
  cases h with
  | same h =>
    have hu : ∀ s : Shape, s.unscoped.components = s.components := fun s => by cases s <;> rfl
    left
    rwa [← hu a, h, hu]
  | result hr hr' =>
    rcases List.mem_cons.mp hy with rfl | hy
    · exact .inr hr'
    · exact .inl (List.mem_cons_of_mem _ hy)
  | renamed _ _ hb => rcases b.nominal_cases hb with ⟨_, _, _, rfl⟩ | ⟨_, _, rfl⟩ <;> cases hy

lemma mem_components_back (h : Alike q t t' a b) (hy : y ∈ a.components) :
    y ∈ b.components ∨ t.get y = .void := by
  cases h with
  | same h =>
    have hu : ∀ s : Shape, s.unscoped.components = s.components := fun s => by cases s <;> rfl
    left
    rwa [← hu b, ← h, hu]
  | result hr hr' =>
    rcases List.mem_cons.mp hy with rfl | hy
    · exact .inr hr
    · exact .inl (List.mem_cons_of_mem _ hy)
  | renamed _ ha _ => rcases a.nominal_cases ha with ⟨_, _, _, rfl⟩ | ⟨_, _, rfl⟩ <;> cases hy

lemma inv (h : Alike q t t' a b) (ha : q ∨ a.nominalName? = none) : AlikeForm t t' b a := by
  cases h with
  | same h =>
    cases a <;> cases b <;> cases h <;> first | rfl | exact ⟨_, rfl⟩ | exact ⟨_, rfl, .inl rfl⟩
  | result hr hr' => exact ⟨_, rfl, .inr ⟨hr, hr'⟩⟩
  | renamed hq hn _ =>
    rcases ha with ha | ha
    · exact absurd ha hq
    · rw [ha] at hn
      cases hn

lemma eq_void (h : Alike q t t' .void b) : b = .void := h.inv (.inr rfl)

end Alike

namespace TypeStore

variable {q : Prop} {t t1 t2 t' : TypeStore} {Z Z' : Slot → Prop} {x y : Slot}

/-- The set of slots is closed under components. -/
def Closed (t : TypeStore) (Z : Slot → Prop) : Prop :=
  ∀ x, Z x → ∀ y ∈ t.components x, Z y

/-- The types in the slots of `Z` stay what they are. -/
def Keeps (q : Prop) (Z : Slot → Prop) (t t' : TypeStore) : Prop :=
  ∀ x, Z x → Alike q t t' (t.get x) (t'.get x)

lemma keeps_of_eq (h : ∀ x, Z x → t'.get x = t.get x) : Keeps q Z t t' :=
  fun x hx => .of_eq (h x hx)

lemma Keeps.mono (h : Keeps q Z t t') (hZ : ∀ x, Z' x → Z x) : Keeps q Z' t t' :=
  fun x hx => h x (hZ x hx)

/-- What was allocated on the way has to be kept as well. -/
lemma Keeps.trans (h1 : Keeps q Z t t1) (h2 : Keeps q Z' t1 t2) (hZ : ∀ x, Z x → Z' x)
    (hclosed : t.Closed Z) (hclosed' : t1.Closed Z') : Keeps q Z t t2 := by
  intro x hx
  have h1x := h1 x hx
  have h2x := h2 x (hZ x hx)
  have hparts : ∀ y ∈ (t.get x).components, Z y := hclosed x hx
  have hparts' : ∀ y ∈ (t1.get x).components, Z' y := hclosed' x (hZ x hx)
  revert h1x h2x hparts hparts'
  generalize t.get x = a
  generalize t1.get x = b
  generalize t2.get x = c
  intro h1x h2x hparts hparts'
  cases h1x with
  | same h1x =>
    cases h2x with
    | same h2x => exact .same (h1x.trans h2x)
    | @result r r' ps hr hr' =>
      obtain rfl : a = .function r ps := by
        cases a <;> first | exact h1x | cases h1x
      -- the result of the first step was void already
      have hvoid : t.get r = .void := by
        have h := (h1 r (hparts r List.mem_cons_self)).isVoid
        rw [hr] at h
        revert h
        cases t.get r <;> first | exact fun _ => rfl | exact fun h => nomatch h
      exact .result hvoid hr'
    | renamed hq hb hc =>
      have hab : Alike q t t1 a b := .same h1x
      exact .renamed hq (hab.nominalName?.symm.trans hb) hc
  | @result r r' ps hr hr' =>
    cases h2x with
    | same h2x =>
      obtain rfl : c = .function r' ps := by
        cases c <;> first | exact h2x.symm | cases h2x
      have h := h2 r' (hparts' r' List.mem_cons_self)
      rw [hr'] at h
      exact .result hr h.eq_void
    | result _ hr'' => exact .result hr hr''
    | renamed _ hb _ => cases hb
  | renamed hq ha hb => exact .renamed hq ha (h2x.nominalName?.trans hb)

variable (h : Keeps q Z t t') (hclosed : t.Closed Z)
include h hclosed

/-- The parts of a type that is kept are its parts from before, and slots of missing results. -/
lemma Keeps.part (hx : Z x) (hy : t'.Part x y) :
    t.Part x y ∧ Z y ∨ t'.get y = .void := by
  induction hy with
  | refl => exact .inl ⟨.refl, hx⟩
  | @tail u v _ hstep ih =>
    rcases ih with ⟨hu, hZ⟩ | hu
    · rcases (h u hZ).mem_components hstep with hv | hv
      · exact .inl ⟨hu.tail hv, hclosed u hZ v hv⟩
      · exact .inr hv
    · rw [components, hu] at hstep
      cases hstep

lemma Keeps.part_back (hx : Z x) (hy : t.Part x y) :
    Z y ∧ (t'.Part x y ∨ t.get y = .void) := by
  induction hy with
  | refl => exact ⟨hx, .inl .refl⟩
  | @tail u v _ hstep ih =>
    obtain ⟨hZ, hu⟩ := ih
    refine ⟨hclosed u hZ v hstep, ?_⟩
    rcases hu with hu | hu
    · rcases (h u hZ).mem_components_back hstep with hv | hv
      · exact .inl (hu.tail hv)
      · exact .inr hv
    · rw [components, hu] at hstep
      cases hstep

/-- What is found among the parts, other than void, is found as before. -/
lemma Keeps.exists_part_iff (hx : Z x) {f : Shape → Bool} (hvoid : f .void = false)
    (hf : ∀ {a b}, Alike q t t' a b → f b = f a) :
    (∃ y, t'.Part x y ∧ f (t'.get y) = true) ↔ ∃ y, t.Part x y ∧ f (t.get y) = true := by
  constructor
  · rintro ⟨y, hy, hfy⟩
    rcases h.part hclosed hx hy with ⟨hpart, hZ⟩ | hv
    · exact ⟨y, hpart, by rwa [← hf (h y hZ)]⟩
    · rw [hv, hvoid] at hfy
      cases hfy
  · rintro ⟨y, hy, hfy⟩
    obtain ⟨hZ, hpart | hv⟩ := h.part_back hclosed hx hy
    · exact ⟨y, hpart, by rwa [hf (h y hZ)]⟩
    · rw [hv, hvoid] at hfy
      cases hfy

lemma Keeps.isIncomplete (hx : Z x) : t'.isIncomplete x = t.isIncomplete x := by
  rw [Bool.eq_iff_iff, isIncomplete_iff, isIncomplete_iff]
  exact h.exists_part_iff hclosed hx rfl Alike.isPlaceholder

lemma Keeps.hasDeferred (hx : Z x) : t'.hasDeferred x = t.hasDeferred x := by
  rw [Bool.eq_iff_iff, hasDeferred_iff, hasDeferred_iff]
  exact h.exists_part_iff hclosed hx rfl Alike.isDeferred

end TypeStore

/-! ### Base classes -/

lemma Graph.trailFrom_isPrefix {next next' : Slot → Option Slot}
    (hnext : ∀ x, Z x → next' x = next x) (hclosed : ∀ x, Z x → ∀ y, next x = some y → Z y) :
    ∀ {fuel fuel' : Nat} {seen : List Slot} {v : Slot}, fuel ≤ fuel' → Z v →
      Graph.trailFrom next fuel seen v <+: Graph.trailFrom next' fuel' seen v
  | 0, _, _, _, _, _ => List.nil_prefix
  | fuel + 1, 0, _, _, hle, _ => absurd hle (by omega)
  | fuel + 1, fuel' + 1, seen, v, hle, hv => by
    unfold Graph.trailFrom
    split
    · exact List.prefix_rfl
    · rw [hnext v hv]
      refine List.cons_prefix_cons.mpr ⟨rfl, ?_⟩
      rcases hw : next v with _ | w
      · exact List.prefix_rfl
      · exact Graph.trailFrom_isPrefix hnext hclosed (by omega) (hclosed v hv w hw)

lemma Graph.mem_trailFrom {α : Type} [DecidableEq α] {next : α → Option α} {Z : α → Prop}
    (hclosed : ∀ x, Z x → ∀ y, next x = some y → Z y) :
    ∀ {fuel : Nat} {seen : List α} {v : α}, Z v → ∀ w ∈ Graph.trailFrom next fuel seen v, Z w
  | 0, _, _, _ => by simp [Graph.trailFrom]
  | fuel + 1, seen, v, hv => by
    unfold Graph.trailFrom
    split
    · simp
    · refine List.forall_mem_cons.mpr ⟨hv, ?_⟩
      rcases hw : next v with _ | w
      · simp
      · exact Graph.mem_trailFrom hclosed (hclosed v hv w hw)

namespace TypeStore

variable {q : Prop} {t t' : TypeStore} {Z : Slot → Prop} {x y : Slot}

/-- The set of slots is closed under base classes. -/
def BaseClosed (t : TypeStore) (Z : Slot → Prop) : Prop :=
  ∀ x, Z x → ∀ y, t.base? x = some y → Z y

lemma mem_lineage (hb : t.BaseClosed Z) (hx : Z x) : ∀ y ∈ t.lineage x, Z y :=
  Graph.mem_trailFrom hb hx

lemma freshNames_prefix {seen : List String} {l l' : List Slot} (hl : l <+: l')
    (hnames : ∀ x ∈ l, (t'.get x).nominalName? = (t.get x).nominalName?) :
    t.freshNames seen l <+: t'.freshNames seen l' := by
  induction l generalizing l' seen with
  | nil => exact List.nil_prefix
  | cons x l ih =>
    obtain ⟨m, rfl⟩ := hl
    obtain ⟨hx, hrest⟩ := List.forall_mem_cons.mp hnames
    rw [List.cons_append, freshNames, freshNames, hx]
    split
    · exact List.prefix_rfl
    · split
      · exact List.prefix_rfl
      · exact List.cons_prefix_cons.mpr ⟨rfl, ih (List.prefix_append _ _) hrest⟩

variable (hq : q) (h : Keeps q Z t t') (hb : t.BaseClosed Z) (hsize : t.size ≤ t'.size)
include hq h hb hsize

lemma Keeps.lineage (hx : Z x) : t.lineage x <+: t'.lineage x :=
  Graph.trailFrom_isPrefix (fun y hy => (h y hy).base? hq) hb (by omega) hx

lemma Keeps.ancestorNames (hx : Z x) : t.ancestorNames x <+: t'.ancestorNames x := by
  have hbase : t'.base? x = t.base? x := (h x hx).base? hq
  have hbases : t.bases x <+: t'.bases x ∧ ∀ y ∈ t.bases x, Z y := by
    unfold bases
    rw [hbase]
    rcases hy : t.base? x with _ | y
    · exact ⟨List.prefix_rfl, by simp⟩
    · exact ⟨h.lineage hq hb hsize (hb x hx y hy), mem_lineage hb (hb x hx y hy)⟩
  unfold TypeStore.ancestorNames
  rw [(h x hx).nominalName?]
  exact freshNames_prefix hbases.1 fun y hy => (h y (hbases.2 y hy)).nominalName?

end TypeStore

/-! ### Agreement -/

namespace TypeStore

/-- The same slot of a set, or two slots of missing results. -/
def Paired (Z : Slot → Prop) (t t' : TypeStore) (a a' : Slot) : Prop :=
  a' = a ∧ Z a ∨ t.get a = .void ∧ t'.get a' = .void

variable {q : Prop} {t t' : TypeStore} {Z : Slot → Prop} {a a' b b' : Slot}

lemma Paired.get (h : Keeps q Z t t') (hp : Paired Z t t' a a') :
    Alike q t t' (t.get a) (t'.get a') := by
  rcases hp with ⟨rfl, ha⟩ | ⟨ha, ha'⟩
  · exact h a' ha
  · rw [ha, ha']
    exact .of_eq rfl

/-- The result of a function that is kept is kept, or was missing before and after. -/
lemma Paired.valueOf (hq : q) (h : Keeps q Z t t') (hclosed : t.Closed Z)
    (hp : Paired Z t t' a a') :
    Paired Z t t' (t.valueOf a) (t'.valueOf a') := by
  rcases hp with ⟨rfl, ha⟩ | ⟨ha, ha'⟩
  · have hinv := (h a' ha).inv (.inl hq)
    have hcomp := hclosed a' ha
    unfold TypeStore.valueOf
    unfold components at hcomp
    revert hinv hcomp
    generalize t.get a' = A
    generalize t'.get a' = B
    intro hinv hcomp
    cases A with
    | function r ps =>
      obtain ⟨r', rfl, rfl | hr⟩ := hinv
      · exact .inl ⟨rfl, hcomp r' List.mem_cons_self⟩
      · exact .inr hr
    | record | enumItem | inlineEnum =>
      obtain ⟨_, rfl⟩ := hinv
      exact .inl ⟨rfl, ha⟩
    | void | unknown | deferred | boolean | string | number | generic | object | enum =>
      cases hinv
      exact .inl ⟨rfl, ha⟩
  · unfold TypeStore.valueOf
    rw [ha, ha']
    exact .inr ⟨ha, ha'⟩

end TypeStore

namespace Relation

open TypeStore

variable {q : Prop} {t t' : TypeStore} {Z : Slot → Prop} {agree agree' : Slot → Slot → Bool}
  {a a' b b' : Slot}

lemma allAgree_mono {Z' : Slot → Prop} {as bs : List Slot} (has : ∀ x ∈ as, Z x)
    (hbs : ∀ y ∈ bs, Z' y) (h : ∀ x y, Z x → Z' y → agree x y = true → agree' x y = true)
    (hall : allAgree agree as bs = true) : allAgree agree' as bs = true := by
  simp only [allAgree, Bool.and_eq_true, List.all_eq_true] at hall ⊢
  refine ⟨hall.1, fun p hp => h _ _ ?_ ?_ (hall.2 p hp)⟩
  · exact has _ (List.of_mem_zip hp).1
  · exact hbs _ (List.of_mem_zip hp).2

lemma mem_of_lookup {fields : List (String × Slot)} {name : String} {y : Slot}
    (h : fields.lookup name = some y) : (name, y) ∈ fields := by
  obtain ⟨l1, l2, rfl, -⟩ := List.lookup_eq_some_iff.mp h
  simp

lemma fieldsAgree_mono {Z' : Slot → Prop} {expected found : List (String × Slot)}
    (hexp : ∀ f ∈ expected, Z f.2) (hfound : ∀ f ∈ found, Z' f.2)
    (h : ∀ x y, Z x → Z' y → agree x y = true → agree' x y = true)
    (hall : fieldsAgree agree expected found = true) :
    fieldsAgree agree' expected found = true := by
  simp only [fieldsAgree, List.all_eq_true, Option.any_eq_true] at hall ⊢
  intro f hf
  obtain ⟨y, hy, hag⟩ := hall f hf
  exact ⟨y, hy, h _ _ (hexp f hf) (hfound _ (mem_of_lookup hy)) hag⟩

lemma classesAgree_keeps (r : Relation) (hq : q) (h : Keeps q Z t t') (hb : t.BaseClosed Z)
    (hsize : t.size ≤ t'.size) {nameA nameB : String} (ha : Z a) (hb' : Z b)
    (hc : r.classesAgree t a b nameA nameB = true) : r.classesAgree t' a b nameA nameB = true := by
  cases r with
  | plain | value => exact hc
  | hierarchy =>
    simp only [classesAgree, Bool.or_eq_true, decide_eq_true_eq] at hc ⊢
    rcases hc with (hc | hc) | hc
    · exact .inl (.inl hc)
    · exact .inl (.inr ((h.ancestorNames hq hb hsize ha).subset hc))
    · exact .inr ((h.ancestorNames hq hb hsize hb').subset hc)

/-- One layer agrees as before, when the slots in it do. -/
lemma layersAgree_keeps (r : Relation) (hq : q) (h : Keeps q Z t t') (hclosed : t.Closed Z)
    (hb : t.BaseClosed Z) (hsize : t.size ≤ t'.size)
    (hagree : ∀ x x' y y', Paired Z t t' x x' → Paired Z t t' y y' → agree x y = true →
      agree' x' y' = true) (ha : Paired Z t t' a a') (hb' : Paired Z t t' b b')
    (hl : r.layersAgree t agree a b = true) : r.layersAgree t' agree' a' b' = true := by
  have hZ : ∀ x y, Z x → Z y → agree x y = true → agree' x y = true := fun x y hx hy =>
    hagree x x y y (.inl ⟨rfl, hx⟩) (.inl ⟨rfl, hy⟩)
  have hform : ∀ {x x' : Slot} {A : Shape}, Paired Z t t' x x' → t.get x = A →
      AlikeForm t t' (t'.get x') A ∧ ∀ y ∈ A.components, Z y := by
    rintro x x' A hx rfl
    refine ⟨(hx.get h).inv (.inl hq), fun y hy => ?_⟩
    rcases hx with ⟨-, hx⟩ | ⟨hx, -⟩
    · exact hclosed x hx y hy
    · rw [hx] at hy
      cases hy
  unfold layersAgree at hl ⊢
  split at hl
  · next hA hB => rw [(hform ha hA).1.eq, (hform hb' hB).1.eq]
  · next hA hB => rw [(hform ha hA).1.eq, (hform hb' hB).1.eq]
  · next hA hB => rw [(hform ha hA).1.eq, (hform hb' hB).1.eq]
  · next hA hB => rw [(hform ha hA).1.eq, (hform hb' hB).1.eq]
  · next hA hB => rw [(hform ha hA).1.eq, (hform hb' hB).1.eq]
  · next hA hB =>
    rw [(hform ha hA).1.eq, (hform hb' hB).1.eq]
    exact hl
  · next hA hB =>
    -- functions: the parameters are the same slots, the results are paired
    obtain ⟨⟨rA, hA', hrA⟩, hcA⟩ := hform ha hA
    obtain ⟨⟨rB, hB', hrB⟩, hcB⟩ := hform hb' hB
    rw [hA', hB']
    obtain ⟨hps, hrs⟩ := Bool.and_eq_true_iff.mp hl
    obtain ⟨hzA, hpsA⟩ := List.forall_mem_cons.mp hcA
    obtain ⟨hzB, hpsB⟩ := List.forall_mem_cons.mp hcB
    refine Bool.and_eq_true_iff.mpr ⟨allAgree_mono hpsA hpsB hZ hps, ?_⟩
    exact hagree _ _ _ _ (hrA.imp (⟨·, hzA⟩) id) (hrB.imp (⟨·, hzB⟩) id) hrs
  · next hA hB =>
    obtain ⟨hA', hcA⟩ := hform ha hA
    obtain ⟨hB', hcB⟩ := hform hb' hB
    rw [hA'.eq, hB'.eq]
    obtain ⟨hname, hargs⟩ := Bool.and_eq_true_iff.mp hl
    exact Bool.and_eq_true_iff.mpr ⟨hname, allAgree_mono hcA hcB hZ hargs⟩
  · next hA hB =>
    obtain ⟨⟨_, hA'⟩, hcA⟩ := hform ha hA
    obtain ⟨⟨_, hB'⟩, hcB⟩ := hform hb' hB
    rw [hA', hB']
    exact fieldsAgree_mono (fun f hf => hcA _ (List.mem_map_of_mem hf))
      (fun f hf => hcB _ (List.mem_map_of_mem hf)) hZ hl
  · next hA hB =>
    rw [(hform ha hA).1.eq, (hform hb' hB).1.eq]
    obtain ⟨rfl, hzA⟩ | ⟨hvoid, -⟩ := ha
    · obtain ⟨rfl, hzB⟩ | ⟨hvoid, -⟩ := hb'
      · exact classesAgree_keeps r hq h hb hsize hzA hzB hl
      · rw [hB] at hvoid
        cases hvoid
    · rw [hA] at hvoid
      cases hvoid
  · next hA hB =>
    rw [(hform ha hA).1.eq, (hform hb' hB).1.eq]
    exact hl
  · next hA hB =>
    obtain ⟨⟨_, hA'⟩, hcA⟩ := hform ha hA
    obtain ⟨⟨_, hB'⟩, hcB⟩ := hform hb' hB
    rw [hA', hB']
    obtain ⟨hname, hargs⟩ := Bool.and_eq_true_iff.mp hl
    exact Bool.and_eq_true_iff.mpr ⟨hname, allAgree_mono hcA hcB hZ hargs⟩
  · next hA hB =>
    obtain ⟨⟨_, hA'⟩, hcA⟩ := hform ha hA
    obtain ⟨⟨_, hB'⟩, hcB⟩ := hform hb' hB
    rw [hA', hB']
    simp only [List.any_eq_true] at hl ⊢
    obtain ⟨x, hx, y, hy, hxy⟩ := hl
    exact ⟨x, hx, y, hy, hZ x y (hcA x hx) (hcB y hy) hxy⟩
  · cases hl

lemma holdsWithin_keeps (r : Relation) (hq : q) (h : Keeps q Z t t') (hclosed : t.Closed Z)
    (hb : t.BaseClosed Z) (hsize : t.size ≤ t'.size) :
    ∀ {fuel fuel' : Nat} {a a' b b' : Slot}, fuel ≤ fuel' → Paired Z t t' a a' →
      Paired Z t t' b b' → r.holdsWithin t fuel a b = true → r.holdsWithin t' fuel' a' b' = true
  | 0, _, _, _, _, _, _, _, _, hh => by cases hh
  | fuel + 1, 0, _, _, _, _, hle, _, _, _ => absurd hle (by omega)
  | fuel + 1, fuel' + 1, a, a', b, b', hle, ha, hb', hh => by
    have hoperand : ∀ {x x' : Slot}, Paired Z t t' x x' →
        Paired Z t t' (r.operand t x) (r.operand t' x') := by
      intro x x' hx
      cases r with
      | value => exact hx.valueOf hq h hclosed
      | plain | hierarchy => exact hx
    have hA := hoperand ha
    have hB := hoperand hb'
    simp only [holdsWithin, Bool.or_eq_true, decide_eq_true_eq] at hh ⊢
    revert hA hB hh
    generalize r.operand t a = x
    generalize r.operand t' a' = x'
    generalize r.operand t b = y
    generalize r.operand t' b' = y'
    intro hA hB hh
    rcases hh with rfl | hh
    · -- one slot: still one slot, or two slots of missing results
      rcases hA with ⟨rfl, hx⟩ | ⟨hx, hx'⟩
      · rcases hB with ⟨rfl, -⟩ | ⟨hy, hy'⟩
        · exact .inl rfl
        · have hvoid := h x' hx
          rw [hy] at hvoid
          right
          unfold layersAgree
          rw [hvoid.eq_void, hy']
      · have hvoid := hB.get h
        rw [hx] at hvoid
        right
        unfold layersAgree
        rw [hvoid.eq_void, hx']
    · refine .inr (layersAgree_keeps r hq h hclosed hb hsize ?_ hA hB hh)
      intro u u' v v' hu hv huv
      exact holdsWithin_keeps r hq h hclosed hb hsize (by omega) hu hv huv

/-- **Agreement is kept** between types that stay what they are. -/
theorem holds_keeps (r : Relation) (hq : q) (h : Keeps q Z t t') (hclosed : t.Closed Z)
    (hb : t.BaseClosed Z) (hsize : t.size ≤ t'.size) (ha : Paired Z t t' a a')
    (hb' : Paired Z t t' b b') (hh : r.holds t a b = true) : r.holds t' a' b' = true :=
  holdsWithin_keeps r hq h hclosed hb hsize
    (Nat.succ_le_succ (Nat.mul_le_mul hsize hsize)) ha hb' hh

end Relation

lemma TypeStore.fits_keeps {q : Prop} (hq : q) (h : Keeps q Z t t') (hclosed : t.Closed Z)
    (hb : t.BaseClosed Z) (hsize : t.size ≤ t'.size) {target found : Slot} (ht : Z target)
    (hf : Z found) (hh : t.fits target found = true) : t'.fits target found = true := by
  simp only [fits, Bool.or_eq_true, Option.any_eq_true] at hh ⊢
  rcases hh with hh | ⟨inner, hi, hh⟩
  · exact .inl (Relation.holds_keeps _ hq h hclosed hb hsize (.inl ⟨rfl, ht⟩) (.inl ⟨rfl, hf⟩) hh)
  · have hzi : Z inner := by
      refine hclosed target ht inner ?_
      unfold optionalInner? Shape.argumentOf? at hi
      unfold components
      split at hi
      · next harg =>
        rw [harg]
        split at hi
        · cases hi
          exact List.mem_cons_self
        · cases hi
      · cases hi
    refine .inr ⟨inner, ?_, Relation.holds_keeps _ hq h hclosed hb hsize (.inl ⟨rfl, hzi⟩)
      (.inl ⟨rfl, hf⟩) hh⟩
    rw [optionalInner?, (h target ht).argumentOf?]
    exact hi

end Sema
