import Sema.Proofs.Parts
import Sema.Types.Display

/-!
How types are displayed. A type is written layer by layer, and it is cut short where it comes to a
type that it is inside of already. Along a path into a type slots do not repeat, so the depth that
is allowed for is never used up.

A cut takes a type that is part of itself. All other types are written as if nothing was ever cut,
also where one slot occurs in several places.
-/

namespace Sema

namespace Shape

variable {f g : Slot → String} {shape : Shape}

/-- What is written of a layer depends only on how its components are written. -/
lemma display_congr (h : ∀ y ∈ shape.components, f y = g y) :
    shape.display f = shape.display g := by
  cases shape with
  | function returns parameters =>
    obtain ⟨hr, hps⟩ := List.forall_mem_cons.mp h
    have hps : ∀ p ∈ parameters, f p.2 = g p.2 := fun p hp => hps _ (List.mem_map_of_mem hp)
    simp only [display, hr, List.map_congr_left hps]
  | generic name arguments =>
    have h : ∀ y ∈ arguments, f y = g y := h
    simp only [display, List.map_congr_left h]
  | record scope fields =>
    have h : ∀ p ∈ fields, p.1 ++ ": " ++ f p.2 = p.1 ++ ": " ++ g p.2 := fun p hp => by
      rw [h _ (List.mem_map_of_mem hp)]
    simp only [display, List.map_congr_left h]
  | enumItem scope name payload =>
    have h : ∀ y ∈ payload, f y = g y := h
    simp only [display, List.map_congr_left h]
  | inlineEnum scope items =>
    have h : ∀ y ∈ items, f y = g y := h
    simp only [display, List.map_congr_left h]
  | _ => rfl

end Shape

namespace TypeStore

variable {t : TypeStore} {x : Slot} {path : List Slot} {text text' : String}

/-! ### Writing with a guard -/

/-- The type in `x` is written as `text` inside the types in `path`: it is cut short if it is one of
them, and else it is written with its components inside it and them. -/
inductive Written (t : TypeStore) : List Slot → Slot → String → Prop
  | cut {path : List Slot} {x : Slot} (h : x ∈ path) : Written t path x "..."
  | layer {path : List Slot} {x : Slot} {inner : Slot → String} (h : x ∉ path)
      (hinner : ∀ y ∈ t.components x, Written t (x :: path) y (inner y)) :
      Written t path x ((t.get x).display inner)

/-- There is one way to write a type. -/
lemma Written.unique (h : t.Written path x text) (h' : t.Written path x text') : text = text' := by
  induction h generalizing text' with
  | cut hx =>
    cases h' with
    | cut => rfl
    | layer hnew => exact absurd hx hnew
  | layer hnew _ ih =>
    cases h' with
    | cut hx => exact absurd hx hnew
    | layer _ hinner' => exact Shape.display_congr fun y hy => ih y hy (hinner' y hy)

/-- With a depth for every slot that is not on the path, a type is written to its end. -/
lemma written_displayWithin : ∀ {fuel : Nat} {path : List Slot} {x : Slot}, path.Nodup →
    (∀ p ∈ path, p < t.size) → t.size < fuel + path.length →
      t.Written path x (t.displayWithin fuel path x)
  | 0, path, _, hnd, hlt, hfuel => by
    have hlength := length_le_size hnd hlt
    omega
  | fuel + 1, path, x, hnd, hlt, hfuel => by
    rw [displayWithin]
    split
    · next hx => exact .cut hx
    · next hnew =>
      -- what has a component exists, and is one more slot on the path
      refine .layer hnew fun y hy => ?_
      exact written_displayWithin (List.nodup_cons.mpr ⟨hnew, hnd⟩)
        (List.forall_mem_cons.mpr ⟨Inside.lt hy, hlt⟩) (by rw [List.length_cons]; omega)

lemma written_of_size_lt {fuel : Nat} (h : t.size < fuel) :
    t.Written [] x (t.displayWithin fuel [] x) :=
  written_displayWithin .nil (by simp) (by simpa using h)

/-- **A type is displayed as it is written**, whatever it refers to. -/
lemma written_display : t.Written [] x (t.display x) :=
  written_of_size_lt (Nat.lt_succ_self t.size)

lemma displayWithin_of_size_lt {extra : Nat} :
    t.displayWithin (t.size + 1 + extra) [] x = t.display x :=
  (written_of_size_lt (by omega)).unique written_display

/-! ### Writing without a guard -/

/-- The type in `x` is written as `text`, with nothing cut short. -/
inductive Spelled (t : TypeStore) : Slot → String → Prop
  | layer {x : Slot} {inner : Slot → String}
      (hinner : ∀ y ∈ t.components x, Spelled t y (inner y)) :
      Spelled t x ((t.get x).display inner)

lemma Spelled.unique (h : t.Spelled x text) (h' : t.Spelled x text') : text = text' := by
  induction h generalizing text' with
  | layer _ ih =>
    cases h' with
    | layer hinner' => exact Shape.display_congr fun y hy => ih y hy (hinner' y hy)

/-- Only a finite type can be written to its end without a guard. -/
lemma Spelled.finite (h : t.Spelled x text) : t.Finite x := by
  induction h with
  | layer _ ih => exact ⟨_, ih⟩

/-- A finite type is written alike inside any types that it is part of. -/
lemma Finite.displayWithin_eq (h : t.Finite x) : ∀ {fuel : Nat} {path : List Slot},
    t.Around path x → fuel + path.length = t.size + 1 →
      t.displayWithin fuel path x = t.display x := by
  induction h with
  | intro x hacc ih =>
    intro fuel path hpath hfuel
    have hx : ¬ Relation.TransGen t.Inside x x := Finite.irrefl ⟨x, hacc⟩
    have hlength := hpath.length_le
    obtain ⟨k, rfl⟩ : ∃ k, fuel = k + 1 := ⟨fuel - 1, by omega⟩
    rw [display, displayWithin, if_neg (hpath.notMem hx), displayWithin, if_neg List.not_mem_nil]
    refine Shape.display_congr fun y hy => ?_
    rw [ih y hy (hpath.inner hx hy) (by rw [List.length_cons]; omega),
      ih y hy (Around.nil.inner hx hy) (by rw [List.length_singleton])]

/-- **A finite type is written layer by layer.** -/
lemma Finite.display_eq (h : t.Finite x) : t.display x = (t.get x).display t.display := by
  rw [display, displayWithin, if_neg List.not_mem_nil]
  refine Shape.display_congr fun y hy => ?_
  exact displayWithin_eq (h.inv hy) (Around.nil.inner h.irrefl hy) (by rw [List.length_singleton])

lemma Finite.spelled (h : t.Finite x) : t.Spelled x (t.display x) := by
  induction h with
  | intro x hacc ih =>
    rw [Finite.display_eq ⟨x, hacc⟩]
    exact .layer ih

/-- **Displaying always ends, and cuts nothing but cycles.** In a store whose types refer to slots
that exist, a type is displayed as it is written with a guard, and all that is looked at on the way
exists. It can be written without a guard just if it is finite, and that is then how it is
displayed. A type that is not finite has a part that contains itself. -/
theorem display_cuts_only_cycles (h : t.InRange) (hx : x < t.size) :
    (∀ y, t.Part x y → y < t.size) ∧
    (∀ text, t.Written [] x text ↔ text = t.display x) ∧
    (∀ text, t.Spelled x text ↔ t.Finite x ∧ text = t.display x) ∧
    (¬ t.Finite x ↔ ∃ y, t.Part x y ∧ Relation.TransGen t.Inside y y) := by
  refine ⟨fun y => h.part_lt hx, fun text => ⟨fun hw => hw.unique written_display, ?_⟩,
    fun text => ⟨fun hs => ⟨hs.finite, hs.unique hs.finite.spelled⟩, ?_⟩, ?_⟩
  · rintro rfl
    exact written_display
  · rintro ⟨hfinite, rfl⟩
    exact hfinite.spelled
  · simp only [finite_iff, not_forall, not_not, exists_prop]

/-- A function of two arguments, in which one slot occurs four times, and two types, each of which
is inside the other one. -/
def tangled : TypeStore :=
  ⟨#[.number .int, .function 0 [("a", 0), ("b", 2)], .record 0 [("x", 0), ("y", 0)],
    .generic Shape.arrayName [4], .generic Shape.optionalName [3]]⟩

theorem display_cuts_only_cycles_tangled :
    tangled.InRange ∧ tangled.Spelled 1 "(Int, \x7bx: Int, y: Int\x7d) -> Int" ∧
    tangled.Written [] 3 "Array<Optional<...>>" ∧ (∀ text, ¬ tangled.Spelled 3 text) ∧
    (∀ y, tangled.Part 3 y → y < 5) := by
  have hrange : tangled.InRange := by decide
  obtain ⟨-, -, hspelled, -⟩ := display_cuts_only_cycles (x := 1) hrange (by decide)
  obtain ⟨hpart, hwritten, hspelled', hfinite'⟩ :=
    display_cuts_only_cycles (x := 3) hrange (by decide)
  have hint : tangled.Finite 0 := ⟨0, fun _ hy => absurd hy List.not_mem_nil⟩
  have hrecord : tangled.Finite 2 :=
    ⟨2, List.forall_mem_cons.mpr ⟨hint, List.forall_mem_singleton.mpr hint⟩⟩
  have hfunction : tangled.Finite 1 := ⟨1, List.forall_mem_cons.mpr ⟨hint, List.forall_mem_cons.mpr
    ⟨hint, List.forall_mem_singleton.mpr hrecord⟩⟩⟩
  have hinner : tangled.Inside 3 4 := List.mem_singleton_self 3
  have houter : tangled.Inside 4 3 := List.mem_singleton_self 4
  have hnot : ¬ tangled.Finite 3 := hfinite'.mpr ⟨3, .refl, .tail (.single hinner) houter⟩
  exact ⟨hrange, (hspelled _).mpr ⟨hfunction, by decide +kernel⟩,
    (hwritten _).mpr (by decide +kernel),
    fun text htext => hnot ((hspelled' text).mp htext).1, hpart⟩

end TypeStore

end Sema
