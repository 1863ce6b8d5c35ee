import Sema.Proofs.Search
import Sema.Types.Relation

/-!
The parts of a type. The search for them finds all, and so a type is incomplete exactly when a
placeholder can be reached through it. A type that is not part of itself can be gone into only as
often as there are slots.
-/

namespace Sema

namespace TypeStore

/-- `y` is a part of the type in `x`. -/
def Part (t : TypeStore) : Slot → Slot → Prop :=
  Graph.Reaches t.components

variable {t : TypeStore} {x y : Slot}

lemma components_eq_nil (h : t.size ≤ x) : t.components x = [] := by
  have hx : t.slots.size ≤ x := h
  simp [components, get, hx, Shape.components]

lemma mem_parts : y ∈ t.parts x ↔ t.Part x y :=
  Graph.mem_reachable fun _ => components_eq_nil

lemma any_parts_iff {p : Shape → Bool} :
    ((t.parts x).any fun y => p (t.get y)) = true ↔ ∃ y, t.Part x y ∧ p (t.get y) = true := by
  simp [mem_parts]

/-- **Incomplete** means that a placeholder can be reached. -/
theorem isIncomplete_iff :
    t.isIncomplete x = true ↔ ∃ y, t.Part x y ∧ (t.get y).isPlaceholder = true :=
  any_parts_iff

theorem hasDeferred_iff :
    t.hasDeferred x = true ↔ ∃ y, t.Part x y ∧ (t.get y).isDeferred = true :=
  any_parts_iff

end TypeStore

/-! ### Types that do not contain themselves -/

namespace TypeStore

variable {t : TypeStore} {x y : Slot}

/-- `y` is a component of the type in `x`. -/
def Inside (t : TypeStore) (y x : Slot) : Prop :=
  y ∈ t.components x

/-- Every way into the type comes to an end. -/
def Finite (t : TypeStore) : Slot → Prop :=
  Acc t.Inside

lemma Inside.lt (h : t.Inside y x) : x < t.size := by
  by_contra hx
  rw [Inside, components_eq_nil (Nat.le_of_not_lt hx)] at h
  cases h

/-- The parts of a finite type are finite. -/
lemma Finite.part (h : t.Finite x) (hy : t.Part x y) : t.Finite y := by
  induction hy with
  | refl => exact h
  | tail _ hstep ih => exact ih.inv hstep

/-- A finite type is not part of itself. -/
lemma Finite.irrefl (h : t.Finite x) : ¬ Relation.TransGen t.Inside x x := by
  have hacc := Acc.transGen h
  clear h
  induction hacc with
  | intro x _ ih => exact fun hx => ih x hx hx

/-- Slots that do not repeat are not more than there are. -/
lemma length_le_size {path : List Slot} (hnd : path.Nodup) (hlt : ∀ p ∈ path, p < t.size) :
    path.length ≤ t.size := by
  have hsub : path ⊆ List.range t.size := fun p hp => List.mem_range.mpr (hlt p hp)
  simpa using (List.subperm_of_subset hnd hsub).length_le

/-- A way from the outside to the type in `x`, which is part of all types on it. -/
structure Around (t : TypeStore) (path : List Slot) (x : Slot) : Prop where
  nodup : path.Nodup
  lt : ∀ p ∈ path, p < t.size
  part : ∀ p ∈ path, Relation.TransGen t.Inside x p

namespace Around

variable {path : List Slot}

lemma nil : t.Around [] x := ⟨List.nodup_nil, by simp, by simp⟩

lemma notMem (h : t.Around path x) (hx : ¬ Relation.TransGen t.Inside x x) : x ∉ path :=
  fun hm => hx (h.part x hm)

lemma length_le (h : t.Around path x) : path.length ≤ t.size :=
  length_le_size h.nodup h.lt

lemma inner (h : t.Around path x) (hx : ¬ Relation.TransGen t.Inside x x) (hy : t.Inside y x) :
    t.Around (x :: path) y :=
  ⟨List.nodup_cons.mpr ⟨h.notMem hx, h.nodup⟩, List.forall_mem_cons.mpr ⟨hy.lt, h.lt⟩,
    List.forall_mem_cons.mpr ⟨.single hy, fun p hp => .head hy (h.part p hp)⟩⟩

end Around

/-- As long as no slot repeats there is room for one more on the way, and there are only so many. -/
lemma finite_of_around : ∀ {room : Nat} {path : List Slot} {x : Slot}, t.Around path x →
    t.size < room + path.length → (∀ y, t.Part x y → ¬ Relation.TransGen t.Inside y y) → t.Finite x
  | 0, path, x, hpath, hroom, _ => by
    have hlength := hpath.length_le
    omega
  | room + 1, path, x, hpath, hroom, hacyclic => by
    have hroom' : t.size < room + (x :: path).length := by
      rw [List.length_cons]
      omega
    exact ⟨x, fun y hy => finite_of_around (hpath.inner (hacyclic x .refl) hy) hroom'
      fun z hz => hacyclic z (.head hy hz)⟩

/-- **A type is finite** just if it has no part that contains itself. -/
lemma finite_iff : t.Finite x ↔ ∀ y, t.Part x y → ¬ Relation.TransGen t.Inside y y :=
  ⟨fun h _ hy => (h.part hy).irrefl, finite_of_around .nil (Nat.lt_succ_self t.size)⟩

end TypeStore

/-! ### All that a type refers to -/

namespace Shape

/-- What a class or an enum refers to: its base class and its fields, or its items. -/
def nominalHandles : Shape → List Slot
  | object _ base _ fields => base.toList ++ fields.map (·.2)
  | enum _ _ items => items
  | _ => []

/-- All slots that a type refers to, of every kind. -/
def handles (shape : Shape) : List Slot :=
  shape.components ++ shape.nominalHandles

lemma nominalHandles_eq_nil {shape : Shape} (h : shape.nominalName? = none) :
    shape.nominalHandles = [] := by
  cases shape <;> first | rfl | cases h

lemma base?_eq_none {shape : Shape} (h : shape.nominalName? = none) : shape.base? = none := by
  cases shape <;> first | rfl | cases h

lemma mem_handles_of_base? {shape : Shape} {y : Slot} (h : shape.base? = some y) :
    y ∈ shape.handles := by
  cases shape <;> simp_all [base?, handles, nominalHandles]

end Shape

namespace TypeStore

variable {t : TypeStore} {x y : Slot}

/-- Every slot that a type of the store refers to exists. -/
def InRange (t : TypeStore) : Prop :=
  ∀ shape ∈ t.slots, ∀ y ∈ shape.handles, y < t.size

instance : Decidable t.InRange :=
  inferInstanceAs (Decidable (∀ shape ∈ t.slots, ∀ y ∈ shape.handles, y < t.size))

lemma slots_getElem? (h : x < t.size) : t.slots[x]? = some (t.get x) := by
  have hx : x < t.slots.size := h
  simp [get, hx]

lemma InRange.component_lt (h : t.InRange) (hx : x < t.size) : ∀ y ∈ t.components x, y < t.size :=
  fun y hy => h _ (Array.mem_of_getElem? (slots_getElem? hx)) y (List.mem_append_left _ hy)

lemma InRange.part_lt (h : t.InRange) (hx : x < t.size) (hy : t.Part x y) : y < t.size :=
  Graph.Reaches.lt hy (fun _ => h.component_lt) hx

end TypeStore

end Sema
