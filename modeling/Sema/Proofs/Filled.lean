import Mathlib.Data.List.Nodup
import Sema.Proofs.Accepted
import Sema.Proofs.Walk
import Sema.Syntax.Draft
import Sema.Typing.Declaration

/-!
Values that are complete once they have met a type. A literal, an enum item alone, and the arrays
and records that are built from these leave placeholders in slots of three kinds: that of `null`,
that of an enum item and that of the elements of an array. A slot is only ever filled with a
complete type. So what is complete stays complete while others are filled, and an array or a record
is complete as soon as the slots inside it are.
-/

namespace Sema

open Sema.Action

/-! ### Complete types -/

namespace TypeStore

variable {t t' : TypeStore} {x y : Slot} {R : Slot → Prop}

/-- The parts of a type are the type itself and the parts of its components. -/
lemma exists_part_iff {P : Slot → Prop} :
    (∃ z, t.Part x z ∧ P z) ↔ P x ∨ ∃ y ∈ t.components x, ∃ z, t.Part y z ∧ P z := by
  constructor
  · rintro ⟨z, hz, hP⟩
    rcases Relation.ReflTransGen.cases_head hz with rfl | ⟨y, hy, hz⟩
    · exact .inl hP
    · exact .inr ⟨y, hy, z, hz, hP⟩
  · rintro (hP | ⟨y, hy, z, hz, hP⟩)
    · exact ⟨x, .refl, hP⟩
    · exact ⟨z, .head hy hz, hP⟩

lemma isIncomplete_eq_false_iff :
    t.isIncomplete x = false ↔
      (t.get x).isPlaceholder = false ∧ ∀ y ∈ t.components x, t.isIncomplete y = false := by
  simp only [← Bool.not_eq_true, isIncomplete_iff]
  rw [exists_part_iff, not_or]
  exact and_congr_right fun _ => ⟨fun h y hy hz => h ⟨y, hy, hz⟩, fun h ⟨y, hy, hz⟩ => h y hy hz⟩

lemma hasDeferred_eq_false_iff :
    t.hasDeferred x = false ↔
      (t.get x).isDeferred = false ∧ ∀ y ∈ t.components x, t.hasDeferred y = false := by
  simp only [← Bool.not_eq_true, hasDeferred_iff]
  rw [exists_part_iff, not_or]
  exact and_congr_right fun _ => ⟨fun h y hy hz => h ⟨y, hy, hz⟩, fun h ⟨y, hy, hz⟩ => h y hy hz⟩

/-- Types that lead only to each other are complete if none of them is a placeholder. -/
lemma complete_of_closed
    (hR : ∀ x, R x → (t.get x).isPlaceholder = false ∧ ∀ y ∈ t.components x, R y) (hx : R x) :
    t.isIncomplete x = false := by
  have hparts : ∀ y, t.Part x y → R y := by
    intro y hy
    induction hy with
    | refl => exact hx
    | tail _ hstep ih => exact (hR _ ih).2 _ hstep
  rw [← Bool.not_eq_true, isIncomplete_iff]
  rintro ⟨y, hy, hp⟩
  rw [(hR y (hparts y hy)).1] at hp
  cases hp

lemma lt_of_complete (h : t.isIncomplete x = false) : x < t.size := by
  by_contra hle
  have hget := t.get_eq_unknown (Nat.le_of_not_lt hle)
  rw [isIncomplete_eq_false_iff, hget] at h
  cases h.1

/-- Complete types stay complete as long as each slot keeps its contents or is filled with a
complete type. -/
lemma complete_of_filled
    (h : ∀ x < t.size, t'.get x = t.get x ∨ t'.isIncomplete x = false)
    (hx : t.isIncomplete x = false) : t'.isIncomplete x = false := by
  refine complete_of_closed (R := fun z => t.isIncomplete z = false ∨ t'.isIncomplete z = false)
    ?_ (.inl hx)
  have hfilled : ∀ z, t'.isIncomplete z = false → (t'.get z).isPlaceholder = false ∧
      ∀ y ∈ t'.components z, t.isIncomplete y = false ∨ t'.isIncomplete y = false := by
    intro z hz
    obtain ⟨hplace, hparts⟩ := isIncomplete_eq_false_iff.mp hz
    exact ⟨hplace, fun y hy => .inr (hparts y hy)⟩
  rintro z (hz | hz)
  · rcases h z (lt_of_complete hz) with hget | hz'
    · obtain ⟨hplace, hparts⟩ := isIncomplete_eq_false_iff.mp hz
      rw [components, hget]
      exact ⟨hplace, fun y hy => .inl (hparts y hy)⟩
    · exact hfilled z hz'
  · exact hfilled z hz

/-- A slot that is filled with a complete type is complete. -/
lemma complete_assign (hx : x < t.size) (hy : t.isIncomplete y = false) :
    (t.assign x y).isIncomplete x = false := by
  refine complete_of_closed (R := fun z => z = x ∨ t.isIncomplete z = false) ?_ (.inl rfl)
  have hget := fun z => t.get_assign x y z hx
  have hcomplete : ∀ z, t.isIncomplete z = false → (t.get z).isPlaceholder = false ∧
      ∀ w ∈ (t.get z).components, w = x ∨ t.isIncomplete w = false := by
    intro z hz
    obtain ⟨hplace, hparts⟩ := isIncomplete_eq_false_iff.mp hz
    exact ⟨hplace, fun w hw => .inr (hparts w hw)⟩
  intro z hz
  rw [components, hget]
  split
  · exact hcomplete y hy
  · next hne => exact hcomplete z (hz.resolve_left hne)

/-- An expected type is made of complete types. -/
lemma complete_of_argumentOf? {name : String} (hx : t.isIncomplete x = false)
    (h : (t.get x).argumentOf? name = some y) : t.isIncomplete y = false := by
  refine (isIncomplete_eq_false_iff.mp hx).2 y ?_
  unfold components
  revert h
  generalize t.get x = shape
  intro h
  rcases shape with _ | _ | _ | _ | _ | _ | _ | ⟨_, _ | ⟨argument, _ | _⟩⟩ | _ | _ | _ | _ | _ <;>
    simp_all [Shape.argumentOf?, Shape.components]

lemma complete_unwrapped (hx : t.isIncomplete x = false) :
    t.isIncomplete (t.unwrapped x) = false := by
  unfold unwrapped optionalInner?
  rcases h : (t.get x).argumentOf? Shape.optionalName with _ | y
  · exact hx
  · exact complete_of_argumentOf? hx h

end TypeStore

/-! ### Filling slots -/

namespace Context

/-- Some slots have been filled with complete types, but none in `Z`. New slots may have come up,
for the nodes `ns`. -/
structure Fills (ns : List NodeId) (Z : Slot → Prop) (c c' : Context) : Prop where
  size : c.types.size ≤ c'.types.size
  nodes : ∀ n x, c.nodeType? n = some x → c'.nodeType? n = some x
  others : ∀ n ∉ ns, c'.nodeType? n = c.nodeType? n
  kept : ∀ x, Z x → c'.types.get x = c.types.get x
  filled : ∀ x < c.types.size, c'.types.get x = c.types.get x ∨ c'.types.isIncomplete x = false

namespace Fills

variable {ms ns : List NodeId} {Z Z' : Slot → Prop} {c c1 c2 : Context} {n : NodeId} {x : Slot}

lemma refl (c : Context) : Fills [] Z c c :=
  ⟨Nat.le_refl _, fun _ _ h => h, fun _ _ => rfl, fun _ _ => rfl, fun _ _ => .inl rfl⟩

lemma complete_type (h : Fills ns Z c c1) (hx : c.types.isIncomplete x = false) :
    c1.types.isIncomplete x = false :=
  TypeStore.complete_of_filled h.filled hx

lemma complete (h : Fills ns Z c c1) : c.Complete n → c1.Complete n
  | ⟨x, hx, hc⟩ => ⟨x, h.nodes n x hx, h.complete_type hc⟩

lemma trans (h1 : Fills ms Z c c1) (h2 : Fills ns Z c1 c2) : Fills (ms ++ ns) Z c c2 := by
  refine ⟨h1.size.trans h2.size, fun n x hx => h2.nodes n x (h1.nodes n x hx), fun n hn => ?_,
    fun x hx => (h2.kept x hx).trans (h1.kept x hx), fun x hx => ?_⟩
  · obtain ⟨hms, hns⟩ := not_or.mp (mt List.mem_append.mpr hn)
    exact (h2.others n hns).trans (h1.others n hms)
  rcases h1.filled x hx with h | h
  · rw [← h]
    exact h2.filled x (hx.trans_le h1.size)
  · exact .inr (h2.complete_type h)

/-- The last step at a node, after those at its parts. -/
lemma node (h1 : Fills ms Z c c1) (h2 : Fills [n] Z c1 c2) : Fills (n :: ms) Z c c2 := by
  have h := h1.trans h2
  exact { h with others := fun m hm => h.others m (by simpa [or_comm] using hm) }

lemma mono (h : Fills ns Z c c1) (hZ : ∀ x, Z' x → Z x) : Fills ns Z' c c1 :=
  { h with kept := fun x hx => h.kept x (hZ x hx) }

lemma assign {y : Slot} (hx : x < c.types.size) (hZ : ¬ Z x)
    (hy : c.types.isIncomplete y = false) : Fills [] Z c (c.assign x y) := by
  have hne : ∀ z, z ≠ x → (c.assign x y).types.get z = c.types.get z :=
    fun z hz => c.types.get_assign_of_ne hz
  refine ⟨(c.types.size_assign x y).ge, fun _ _ h => h, fun _ _ => rfl, fun z hz => hne z ?_,
    fun z _ => ?_⟩
  · rintro rfl
    exact hZ hz
  · by_cases hz : z = x
    · subst hz
      exact .inr (TypeStore.complete_assign hx hy)
    · exact .inl (hne z hz)

/-- New slots change nothing about the old ones. -/
lemma allocFor (n : NodeId) (shape : Shape) (hn : c.nodeType? n = none) :
    Fills [n] (· < c.types.size) c (c.allocFor n shape).2 := by
  have hold : ∀ z < c.types.size, (c.allocFor n shape).2.types.get z = c.types.get z :=
    fun z hz => TypeStore.get_alloc_of_lt _ _ hz
  refine ⟨?_, fun m x hx => ?_, fun m hm => ?_, hold, fun z hz => .inl (hold z hz)⟩
  · exact (TypeStore.size_alloc c.types shape).symm ▸ Nat.le_succ _
  · refine (nodeType?_insert _ n m _).trans ?_
    have hne : m ≠ n := by
      rintro rfl
      rw [hn] at hx
      cases hx
    rw [if_neg hne]
    exact hx
  · exact (nodeType?_insert _ n m _).trans (if_neg fun h => hm (List.mem_singleton.mpr h))

lemma alloc (shape : Shape) : Fills [] (· < c.types.size) c (c.alloc shape).2 := by
  have hold : ∀ z < c.types.size, (c.alloc shape).2.types.get z = c.types.get z :=
    fun z hz => TypeStore.get_alloc_of_lt _ _ hz
  refine ⟨?_, fun _ _ h => h, fun _ _ => rfl, hold, fun z hz => .inl (hold z hz)⟩
  exact (TypeStore.size_alloc c.types shape).symm ▸ Nat.le_succ _

end Fills

end Context

/-! ### Literals, arrays, records and enum items -/

mutual

/-- Built from literals and enum items alone, with arrays and records. -/
def Expr.isData : Expr → Bool
  | .literal .. | .shorthand .. => true
  | .array _ elements => Expr.allData elements
  | .record _ fields => FieldValue.allData fields
  | _ => false

def Expr.allData : List Expr → Bool
  | [] => true
  | e :: rest => e.isData && Expr.allData rest

def FieldValue.allData : List FieldValue → Bool
  | [] => true
  | ⟨_, _, value⟩ :: rest => value.isData && FieldValue.allData rest

end

/-- The slot of a value that cannot type itself: it is deferred, or it has been filled. -/
def TypeStore.Fillable (t : TypeStore) (x : Slot) : Prop :=
  t.get x = .deferred ∨ t.isIncomplete x = false

mutual

/-- How a resolved expression waits for inference. It has the slots from `lo` to `hi` to itself:
first those of its parts, one part after the other, then its own. An array whose element type is
known has met its anchor, and all its elements are complete. -/
def Expr.Fillable (c : Context) (lo hi : Nat) : Expr → Prop
  | .literal node .null | .shorthand node _ =>
    ∃ x : Nat, c.nodeType? node.id = some x ∧ lo ≤ x ∧ x < hi ∧ c.types.Fillable x
  | .literal node _ => c.Complete node.id
  | .array node elements =>
    ∃ mid x y : Nat, Expr.AllFillable c lo mid elements ∧ c.nodeType? node.id = some x ∧
      c.types.get x = .generic Shape.arrayName [y] ∧ lo ≤ mid ∧ mid ≤ y ∧ y < x ∧ x < hi ∧
      (c.types.get y = .deferred ∨
        c.types.isIncomplete y = false ∧ ∀ n ∈ Expr.nodesAll elements, c.Complete n)
  | .record node values =>
    ∃ mid x scope fields, FieldValue.AllFillable c lo mid values ∧ c.nodeType? node.id = some x ∧
      c.types.get x = .record scope fields ∧ lo ≤ mid ∧ mid ≤ x ∧ x < hi ∧
      fields.map (fun f => some f.2) = values.map fun f => c.nodeType? f.value.node.id
  | _ => False

def Expr.AllFillable (c : Context) (lo hi : Nat) : List Expr → Prop
  | [] => True
  | e :: rest => ∃ mid, lo ≤ mid ∧ mid ≤ hi ∧ e.Fillable c lo mid ∧ Expr.AllFillable c mid hi rest

def FieldValue.AllFillable (c : Context) (lo hi : Nat) : List FieldValue → Prop
  | [] => True
  | ⟨_, _, value⟩ :: rest =>
    ∃ mid, lo ≤ mid ∧ mid ≤ hi ∧ value.Fillable c lo mid ∧ FieldValue.AllFillable c mid hi rest

end

lemma Expr.node_mem_nodes (e : Expr) : e.node.id ∈ e.nodes := by
  cases e <;> simp [Expr.node, Expr.nodes]

section

variable {c c' : Context} {x : Slot}

lemma TypeStore.Fillable.lt {t : TypeStore} (h : t.Fillable x) : x < t.size := by
  rcases h with h | h
  · by_contra hle
    rw [t.get_eq_unknown (Nat.le_of_not_lt hle)] at h
    cases h
  · exact TypeStore.lt_of_complete h

/-! ### Filling other slots -/

lemma Context.Fills.fillable {ns : List NodeId} {Z : Slot → Prop} (hf : Fills ns Z c c') (hx : Z x)
    (h : c.types.Fillable x) : c'.types.Fillable x :=
  h.imp (fun hd => (hf.kept x hx).trans hd) hf.complete_type

/-- The fields of a record go on sharing the slots of the values. -/
lemma Context.Fills.fields {ns : List NodeId} {Z : Slot → Prop} (hf : Fills ns Z c c')
    {fields : List (String × Slot)} {values : List FieldValue}
    (h : fields.map (fun f => some f.2) = values.map fun f => c.nodeType? f.value.node.id) :
    fields.map (fun f => some f.2) = values.map fun f => c'.nodeType? f.value.node.id := by
  refine h.trans (List.map_congr_left fun v hv => ?_)
  have hmem : c.nodeType? v.value.node.id ∈ fields.map fun f => some f.2 :=
    h ▸ List.mem_map_of_mem hv
  obtain ⟨f, -, hf'⟩ := List.mem_map.mp hmem
  rw [← hf', hf.nodes _ _ hf'.symm]

mutual

/-- An expression goes on waiting while slots other than its own are filled. -/
lemma Expr.Fillable.frame : ∀ {e : Expr} {lo hi : Nat} {ns : List NodeId}, e.Fillable c lo hi →
    Context.Fills ns (fun x => lo ≤ x ∧ x < hi) c c' → e.Fillable c' lo hi
  | .literal _ value, _, _, _, h, hf => by
    cases value with
    | null =>
      obtain ⟨x, hx, h1, h2, hfill⟩ := h
      exact ⟨x, hf.nodes _ _ hx, h1, h2, hf.fillable ⟨h1, h2⟩ hfill⟩
    | integer | float | string | boolean => exact hf.complete h
  | .shorthand .., _, _, _, ⟨x, hx, h1, h2, hfill⟩, hf =>
    ⟨x, hf.nodes _ _ hx, h1, h2, hf.fillable ⟨h1, h2⟩ hfill⟩
  | .array .., lo, hi, _, h, hf => by
    obtain ⟨mid, x, y, hall, hx, hget, h1, h2, h3, h4, hy⟩ := h
    have hmid : mid ≤ hi := (h2.trans h3.le).trans h4.le
    refine ⟨mid, x, y, hall.frame (hf.mono fun z hz => ⟨hz.1, hz.2.trans_le hmid⟩),
      hf.nodes _ _ hx, (hf.kept x ⟨(h1.trans h2).trans h3.le, h4⟩).trans hget, h1, h2, h3, h4, ?_⟩
    refine hy.imp (fun hd => (hf.kept y ⟨h1.trans h2, h3.trans h4⟩).trans hd) fun ⟨hc, hall⟩ => ?_
    exact ⟨hf.complete_type hc, fun n hn => hf.complete (hall n hn)⟩
  | .record .., lo, hi, _, h, hf => by
    obtain ⟨mid, x, scope, fields, hall, hx, hget, h1, h2, h3, hfields⟩ := h
    have hmid : mid ≤ hi := h2.trans h3.le
    exact ⟨mid, x, scope, fields, hall.frame (hf.mono fun z hz => ⟨hz.1, hz.2.trans_le hmid⟩),
      hf.nodes _ _ hx, (hf.kept x ⟨h1.trans h2, h3⟩).trans hget, h1, h2, h3, hf.fields hfields⟩

lemma Expr.AllFillable.frame : ∀ {es : List Expr} {lo hi : Nat} {ns : List NodeId},
    Expr.AllFillable c lo hi es → Context.Fills ns (fun x => lo ≤ x ∧ x < hi) c c' →
      Expr.AllFillable c' lo hi es
  | [], _, _, _, _, _ => trivial
  | _ :: _, _, _, _, ⟨mid, h1, h2, he, hrest⟩, hf =>
    ⟨mid, h1, h2, he.frame (hf.mono fun _ hz => ⟨hz.1, hz.2.trans_le h2⟩),
      hrest.frame (hf.mono fun _ hz => ⟨h1.trans hz.1, hz.2⟩)⟩

lemma FieldValue.AllFillable.frame : ∀ {values : List FieldValue} {lo hi : Nat} {ns : List NodeId},
    FieldValue.AllFillable c lo hi values → Context.Fills ns (fun x => lo ≤ x ∧ x < hi) c c' →
      FieldValue.AllFillable c' lo hi values
  | [], _, _, _, _, _ => trivial
  | ⟨_, _, _⟩ :: _, _, _, _, ⟨mid, h1, h2, he, hrest⟩, hf =>
    ⟨mid, h1, h2, he.frame (hf.mono fun _ hz => ⟨hz.1, hz.2.trans_le h2⟩),
      hrest.frame (hf.mono fun _ hz => ⟨h1.trans hz.1, hz.2⟩)⟩

end

/-! ### Values without deferred parts -/

lemma Expr.Fillable.typed {e : Expr} {lo hi : Nat} (h : e.Fillable c lo hi) :
    ∃ x, c.nodeType? e.node.id = some x := by
  rcases e with ⟨node, _ | _ | _ | _ | _⟩ | _ | _ | _ | _ | _ | _ | _ | _ | _ | _ | _ | _
  case literal.null | shorthand =>
    obtain ⟨x, hx, -⟩ := h
    exact ⟨x, hx⟩
  case literal.integer | literal.float | literal.string | literal.boolean =>
    obtain ⟨x, hx, -⟩ := h
    exact ⟨x, hx⟩
  case array =>
    obtain ⟨-, x, -, -, hx, -⟩ := h
    exact ⟨x, hx⟩
  case record =>
    obtain ⟨-, x, -, -, -, hx, -⟩ := h
    exact ⟨x, hx⟩
  all_goals cases h

lemma Context.complete_array {y : Slot} (hget : c.types.get x = .generic Shape.arrayName [y])
    (hy : c.types.isIncomplete y = false) : c.types.isIncomplete x = false := by
  refine TypeStore.isIncomplete_eq_false_iff.mpr ⟨by rw [hget]; rfl, fun z hz => ?_⟩
  rw [TypeStore.components, hget] at hz
  rwa [List.mem_singleton.mp hz]

/-- A record is complete if the values of its fields are. -/
lemma Context.complete_record {scope : ScopeId} {fields : List (String × Slot)}
    {values : List FieldValue} (hget : c.types.get x = .record scope fields)
    (hfields : fields.map (fun f => some f.2) = values.map fun f => c.nodeType? f.value.node.id)
    (hvalues : ∀ n ∈ FieldValue.nodesAll values, c.Complete n) :
    c.types.isIncomplete x = false := by
  refine TypeStore.isIncomplete_eq_false_iff.mpr ⟨by rw [hget]; rfl, fun y hy => ?_⟩
  rw [TypeStore.components, hget] at hy
  obtain ⟨f, hf, rfl⟩ := List.mem_map.mp hy
  have hmem : some f.2 ∈ values.map fun f => c.nodeType? f.value.node.id :=
    hfields ▸ List.mem_map_of_mem (f := fun f : String × Slot => some f.2) hf
  obtain ⟨v, hv, hv'⟩ := List.mem_map.mp hmem
  obtain ⟨y, hy, hc⟩ :=
    hvalues _ (FieldValue.mem_nodesAll.mpr ⟨v, hv, v.value.node_mem_nodes⟩)
  rw [hv'] at hy
  cases hy
  exact hc

mutual

/-- Nothing is incomplete in such an expression but what is deferred. -/
lemma Expr.Fillable.complete : ∀ {e : Expr} {lo hi : Nat} {x : Slot}, e.Fillable c lo hi →
    c.nodeType? e.node.id = some x → c.types.hasDeferred x = false → ∀ n ∈ e.nodes, c.Complete n
  | .literal node value, lo, hi, x, h, hx, hd => by
    refine List.forall_mem_singleton.mpr ?_
    cases value with
    | null =>
      obtain ⟨x', hx', -, -, hfill⟩ := h
      obtain rfl : x = x' := Option.some.inj (hx.symm.trans hx')
      refine ⟨x, hx, hfill.resolve_left fun hdef => ?_⟩
      rw [TypeStore.hasDeferred_eq_false_iff, hdef] at hd
      cases hd.1
    | integer | float | string | boolean => exact h
  | .shorthand node item, lo, hi, x, h, hx, hd => by
    refine List.forall_mem_singleton.mpr ?_
    obtain ⟨x', hx', -, -, hfill⟩ := h
    obtain rfl : x = x' := Option.some.inj (hx.symm.trans hx')
    refine ⟨x, hx, hfill.resolve_left fun hdef => ?_⟩
    rw [TypeStore.hasDeferred_eq_false_iff, hdef] at hd
    cases hd.1
  | .array node elements, lo, hi, x, h, hx, hd => by
    obtain ⟨mid, x', y, -, hx', hget, -, -, -, -, hy⟩ := h
    obtain rfl : x = x' := Option.some.inj (hx.symm.trans hx')
    obtain ⟨hc, hall⟩ := hy.resolve_left fun hdef => by
      have hyd := (TypeStore.hasDeferred_eq_false_iff.mp hd).2 y
        (by rw [TypeStore.components, hget]; exact List.mem_singleton_self y)
      rw [TypeStore.hasDeferred_eq_false_iff, hdef] at hyd
      cases hyd.1
    exact List.forall_mem_cons.mpr ⟨⟨x, hx, Context.complete_array hget hc⟩, hall⟩
  | .record node values, lo, hi, x, h, hx, hd => by
    obtain ⟨mid, x', scope, fields, hall, hx', hget, -, -, -, hfields⟩ := h
    obtain rfl : x = x' := Option.some.inj (hx.symm.trans hx')
    have hvalues := hall.complete fun f hf y hy => by
      refine (TypeStore.hasDeferred_eq_false_iff.mp hd).2 y ?_
      have hmem : some y ∈ fields.map fun f => some f.2 :=
        hfields ▸ List.mem_map.mpr ⟨f, hf, hy⟩
      obtain ⟨g, hg, hgy⟩ := List.mem_map.mp hmem
      rw [TypeStore.components, hget]
      exact List.mem_map.mpr ⟨g, hg, Option.some.inj hgy⟩
    exact List.forall_mem_cons.mpr ⟨⟨x, hx, Context.complete_record hget hfields hvalues⟩, hvalues⟩

lemma FieldValue.AllFillable.complete : ∀ {values : List FieldValue} {lo hi : Nat},
    FieldValue.AllFillable c lo hi values → (∀ f ∈ values, ∀ y,
      c.nodeType? f.value.node.id = some y → c.types.hasDeferred y = false) →
        ∀ n ∈ FieldValue.nodesAll values, c.Complete n
  | [], _, _, _, _ => by simp [FieldValue.nodesAll]
  | ⟨_, _, value⟩ :: rest, _, _, ⟨mid, _, _, he, hrest⟩, hd => by
    obtain ⟨hd1, hd2⟩ := List.forall_mem_cons.mp hd
    obtain ⟨y, hy⟩ := he.typed
    exact List.forall_mem_append.mpr ⟨he.complete hy (hd1 y hy), hrest.complete hd2⟩

end

/-! ### Inference -/

lemma Infer.runs_null {node : Node} {t : Slot} (hx : c.nodeType? node.id = some x)
    (h : Runs (Infer.expr t (.literal node .null)) c () c') : c.assign x t = c' := by
  simp only [Infer.expr, runs_bind, Check.runs_slotOf, Check.runs_assign] at h
  rw [Context.slotOf_of_some hx] at h
  obtain ⟨_, _, heq, rfl⟩ := h
  cases heq
  rfl

/-- The slots from `lo` to `hi` have been filled, and with them the nodes `ns`. -/
structure Context.Completes (lo hi : Nat) (ns : List NodeId) (c c' : Context) : Prop where
  fills : Fills [] (fun x => x < lo ∨ hi ≤ x) c c'
  complete : ∀ n ∈ ns, c'.Complete n

namespace Context.Completes

variable {lo mid hi : Nat} {ms ns : List NodeId} {c1 c2 : Context}

lemma nil : Completes lo hi [] c c :=
  ⟨.refl _, by simp⟩

/-- First one part is filled, then the next. -/
lemma append (h1 : Completes lo mid ms c c1) (h2 : Completes mid hi ns c1 c2) (hlo : lo ≤ mid)
    (hhi : mid ≤ hi) : Completes lo hi (ms ++ ns) c c2 := by
  refine ⟨(h1.fills.mono ?_).trans (h2.fills.mono ?_), List.forall_mem_append.mpr ⟨?_, h2.complete⟩⟩
  · exact fun x hx => hx.imp_right hhi.trans
  · exact fun x hx => hx.imp_left hlo.trans_lt'
  · exact fun n hn => h2.fills.complete (h1.complete n hn)

/-- The parts that come before are not touched, nor those that come after. -/
lemma before (h : Completes mid hi ns c c') : Fills [] (fun x => lo ≤ x ∧ x < mid) c c' :=
  h.fills.mono fun _ hx => .inl hx.2

lemma after (h : Completes lo mid ns c c') : Fills [] (fun x => mid ≤ x ∧ x < hi) c c' :=
  h.fills.mono fun _ hx => .inr hx.1

/-- A slot that is filled with a complete type. -/
lemma assign {n : NodeId} {x : Nat} {y : Slot} (hx : c.nodeType? n = some x) (h1 : lo ≤ x)
    (h2 : x < hi) (hlt : x < c.types.size) (hy : c.types.isIncomplete y = false) :
    Completes lo hi [n] c (c.assign x y) :=
  ⟨.assign hlt (by simpa using ⟨h1, h2⟩) hy,
    List.forall_mem_singleton.mpr ⟨x, hx, TypeStore.complete_assign hlt hy⟩⟩

end Context.Completes

mutual

/-- **Inference completes**: from a complete type, all of the expression gets a complete type, and
no slots but those of the expression are filled. -/
lemma Expr.Fillable.infer : ∀ {e : Expr} {lo hi : Nat} {t : Slot} {c c' : Context},
    e.Fillable c lo hi → c.types.isIncomplete t = false → Runs (Infer.expr t e) c () c' →
      Context.Completes lo hi e.nodes c c' ∧ e.Fillable c' lo hi
  | .literal node value, lo, hi, t, c, c', h, ht, hr => by
    cases value with
    | null =>
      obtain ⟨x, hx, h1, h2, hfill⟩ := h
      obtain rfl := Infer.runs_null hx hr
      exact ⟨.assign hx h1 h2 hfill.lt ht,
        x, hx, h1, h2, .inr (TypeStore.complete_assign hfill.lt ht)⟩
    | integer | float | string | boolean =>
      obtain rfl := Infer.runs_still rfl hr
      exact ⟨⟨.refl _, List.forall_mem_singleton.mpr h⟩, h⟩
  | .shorthand node item, lo, hi, t, c, c', h, ht, hr => by
    obtain ⟨x, hx, h1, h2, hfill⟩ := h
    simp only [Infer.expr, runs_bind, Check.runs_types] at hr
    obtain ⟨_, _, ⟨rfl, rfl⟩, hr⟩ := hr
    obtain ⟨_, _, heq, rfl⟩ := Infer.runs_shorthand hr
    rw [Context.slotOf_of_some hx] at heq
    cases heq
    have hwanted := TypeStore.complete_unwrapped ht
    exact ⟨.assign hx h1 h2 hfill.lt hwanted,
      x, hx, h1, h2, .inr (TypeStore.complete_assign hfill.lt hwanted)⟩
  | .array node elements, lo, hi, t, c, c', h, ht, hr => by
    obtain ⟨mid, x, y, hall, hx, hget, h1, h2, h3, h4, hy⟩ := h
    have hlt : y < c.types.size := TypeStore.Fillable.lt (hy.imp_right And.left)
    obtain ⟨w, c1, hw, hes, rfl⟩ := Infer.runs_array hx hget hr
    have hwc := TypeStore.complete_of_argumentOf? (TypeStore.complete_unwrapped ht) hw
    obtain ⟨hcs, hall1⟩ := hall.infer hwc hes
    -- the element slot is complete in the end, whether it was filled now or before
    obtain ⟨c2, hc2, hf, hyc⟩ : ∃ c2, (if c1.types.isIncomplete y then c1.assign y w else c1) = c2 ∧
        Context.Fills [] (· ≠ y) c1 c2 ∧ c2.types.isIncomplete y = false := by
      refine ⟨_, rfl, ?_⟩
      have hlt1 := hlt.trans_le hcs.fills.size
      have hwc1 := hcs.fills.complete_type hwc
      split
      · exact ⟨.assign hlt1 (· rfl) hwc1, TypeStore.complete_assign hlt1 hwc1⟩
      · next hi => exact ⟨.refl _, by simpa using hi⟩
    rw [hc2]
    have hfills := (hcs.fills.mono fun (z : Nat) (hz : z < lo ∨ hi ≤ z) => ?_).trans
      (hf.mono fun (z : Nat) (hz : z < lo ∨ hi ≤ z) => ?_)
    · have hx2 := hfills.nodes _ _ hx
      have hget2 : c2.types.get x = .generic Shape.arrayName [y] :=
        (hf.kept x h3.ne').trans ((hcs.fills.kept x (.inr (h2.trans h3.le))).trans hget)
      have hnodes := fun n hn => hf.complete (hcs.complete n hn)
      refine ⟨⟨hfills, List.forall_mem_cons.mpr ⟨⟨x, hx2, ?_⟩, hnodes⟩⟩, mid, x, y, ?_, hx2, hget2,
        h1, h2, h3, h4, .inr ⟨hyc, hnodes⟩⟩
      · exact Context.complete_array hget2 hyc
      · exact hall1.frame (hf.mono fun z hz => (hz.2.trans_le h2).ne)
    · exact hz.imp_right ((h2.trans h3.le).trans h4.le).trans
    · rintro rfl
      omega
  | .record node values, lo, hi, t, c, c', h, ht, hr => by
    obtain ⟨mid, x, scope, fields, hall, hx, hget, h1, h2, h3, hfields⟩ := h
    obtain ⟨sc, types, hwanted, hr⟩ := Infer.runs_record hr
    have htypes : ∀ f ∈ types, c.types.isIncomplete f.2 = false := by
      intro f hf
      refine (TypeStore.isIncomplete_eq_false_iff.mp (TypeStore.complete_unwrapped ht)).2 f.2 ?_
      rw [TypeStore.components, hwanted]
      exact List.mem_map_of_mem hf
    obtain ⟨hcs, hall1⟩ := hall.infer htypes hr
    have hx1 := hcs.fills.nodes _ _ hx
    have hget1 : c'.types.get x = .record scope fields := (hcs.fills.kept x (.inr h2)).trans hget
    have hfields1 := hcs.fills.fields hfields
    refine ⟨⟨hcs.fills.mono fun z hz => hz.imp_right (h2.trans h3.le).trans,
      List.forall_mem_cons.mpr ⟨⟨x, hx1, ?_⟩, hcs.complete⟩⟩,
      mid, x, scope, fields, hall1, hx1, hget1, h1, h2, h3, hfields1⟩
    exact Context.complete_record hget1 hfields1 hcs.complete

lemma Expr.AllFillable.infer : ∀ {es : List Expr} {lo hi : Nat} {t : Slot} {c c' : Context},
    Expr.AllFillable c lo hi es → c.types.isIncomplete t = false → Runs (Infer.exprs t es) c () c' →
      Context.Completes lo hi (Expr.nodesAll es) c c' ∧ Expr.AllFillable c' lo hi es
  | [], _, _, _, _, _, _, _, hr => by
    simp only [Infer.exprs, runs_pure] at hr
    obtain ⟨-, rfl⟩ := hr
    exact ⟨.nil, trivial⟩
  | e :: rest, lo, hi, t, c, c', ⟨mid, h1, h2, he, hrest⟩, ht, hr => by
    obtain ⟨c1, hr1, hr2⟩ := Infer.runs_exprs_cons.mp hr
    obtain ⟨hcs1, he1⟩ := he.infer ht hr1
    have hrest1 := hrest.frame hcs1.after
    obtain ⟨hcs2, hrest2⟩ := hrest1.infer (hcs1.fills.complete_type ht) hr2
    exact ⟨hcs1.append hcs2 h1 h2, mid, h1, h2,
      he1.frame hcs2.before, hrest2⟩

lemma FieldValue.AllFillable.infer : ∀ {values : List FieldValue} {types : List (String × Slot)}
    {lo hi : Nat} {t : Slot} {c c' : Context}, FieldValue.AllFillable c lo hi values →
      (∀ f ∈ types, c.types.isIncomplete f.2 = false) → Runs (Infer.fields t types values) c () c' →
        Context.Completes lo hi (FieldValue.nodesAll values) c c' ∧
          FieldValue.AllFillable c' lo hi values
  | [], _, _, _, _, _, _, _, _, hr => by
    simp only [Infer.fields, runs_pure] at hr
    obtain ⟨-, rfl⟩ := hr
    exact ⟨.nil, trivial⟩
  | ⟨_, _, value⟩ :: rest, types, lo, hi, t, c, c', ⟨mid, h1, h2, he, hrest⟩, ht, hr => by
    obtain ⟨w, c1, hw, hr1, hr2⟩ := Infer.runs_fields_cons hr
    obtain ⟨hcs1, he1⟩ := he.infer (ht _ (Relation.mem_of_lookup hw)) hr1
    have hrest1 := hrest.frame hcs1.after
    obtain ⟨hcs2, hrest2⟩ := hrest1.infer (fun f hf => hcs1.fills.complete_type (ht f hf)) hr2
    exact ⟨hcs1.append hcs2 h1 h2, mid, h1, h2,
      he1.frame hcs2.before, hrest2⟩

end

/-! ### Resolution -/

/-- Elements that have met a complete anchor are complete. -/
lemma Expr.AllFillable.checkElements {anchor : Slot} : ∀ {es : List Expr} {slots : List Slot}
    {i lo hi : Nat} {c c' : Context}, Expr.AllFillable c lo hi es →
      slots.map some = es.map (fun e => c.nodeType? e.node.id) →
      c.types.isIncomplete anchor = false →
      Runs (Resolve.checkElements anchor i (es.zip slots)) c () c' →
        Context.Completes lo hi (Expr.nodesAll es) c c' ∧ Expr.AllFillable c' lo hi es
  | [], _, _, _, _, _, _, _, _, _, hr => by
    simp only [List.zip_nil_left, Resolve.checkElements, runs_pure] at hr
    obtain ⟨-, rfl⟩ := hr
    exact ⟨.nil, trivial⟩
  | _ :: _, [], _, _, _, _, _, _, hslots, _, _ => by simp at hslots
  | e :: rest, y :: slots, i, lo, hi, c, c', ⟨mid, h1, h2, he, hrest⟩, hslots, ha, hr => by
    obtain ⟨hy, hslots⟩ := List.cons_eq_cons.mp hslots
    obtain ⟨c1, hfirst, hr⟩ := Resolve.runs_checkElements_cons hr
    have hinfer : Context.Completes lo mid e.nodes c c1 ∧ e.Fillable c1 lo mid := by
      rcases hfirst with ⟨-, hinfer⟩ | ⟨hd, rfl⟩
      · exact he.infer ha hinfer
      · exact ⟨⟨.refl _, he.complete hy.symm hd⟩, he⟩
    obtain ⟨hcs1, he1⟩ := hinfer
    have hrest1 := hrest.frame hcs1.after
    have hslots1 : slots.map some = rest.map fun e => c1.nodeType? e.node.id := by
      simpa only [hcs1.fills.others _ List.not_mem_nil] using hslots
    obtain ⟨hcs2, hrest2⟩ := hrest1.checkElements hslots1 (hcs1.fills.complete_type ha) hr
    exact ⟨hcs1.append hcs2 h1 h2, mid, h1, h2,
      he1.frame hcs2.before, hrest2⟩

namespace Resolve

variable {plan : Plan} {demand : NodeId → Resolve Unit} {x : Slot} {s s' : Resolving} {n : NodeId}
  {shape : Shape}

/-- A slot for the elements of an array, then one for the array. -/
lemma fills_setShape_alloc {element : Shape} (hn : c.nodeType? n = none)
    (h : (c.alloc element).2.setShape n shape = (x, c')) :
    Context.Fills [n] (· < c.types.size) c c' := by
  have hn' : (c.alloc element).2.nodeType? n = none := hn
  rw [Context.setShape_of_none hn'] at h
  have hc' : ((c.alloc element).2.allocFor n shape).2 = c' := congrArg Prod.snd h
  have halloc := Context.Fills.alloc (c := c) element
  rw [← hc']
  exact halloc.trans ((Context.Fills.allocFor n shape hn').mono fun _ hz => hz.trans_le halloc.size)

lemma fillable_arrayRule {node : Node} {elements : List Expr} {slots : List Slot} {lo : Nat}
    (hnode : c.nodeType? node.id = none) (hlo : lo ≤ c.types.size)
    (hall : Expr.AllFillable c lo c.types.size elements)
    (hslots : slots.map some = elements.map fun e => c.nodeType? e.node.id)
    (hr : Runs (arrayRule node elements slots) c x c') :
    Context.Fills [node.id] (· < lo) c c' ∧
      (Expr.array node elements).Fillable c' lo c'.types.size ∧ c'.nodeType? node.id = some x := by
  obtain ⟨c1, shape, hcase, hset⟩ := runs_arrayRule hr
  have hx := Context.nodeType?_of_setShape hset
  -- with an anchor all elements are complete, without one the type of the elements is deferred
  obtain ⟨hf1, hall1, hshape⟩ : Context.Fills [] (fun x => x < lo ∨ c.types.size ≤ x) c c1 ∧
      Expr.AllFillable c1 lo c.types.size elements ∧ (shape = .deferred ∨
        (∃ a, shape = c1.types.get a ∧ c1.types.isIncomplete a = false) ∧
          ∀ n ∈ Expr.nodesAll elements, c1.Complete n) := by
    rcases hcase with ⟨anchor, hfind, hcheck, rfl⟩ | ⟨-, rfl, rfl⟩
    · have ha : c.types.isIncomplete anchor = false := by simpa using List.find?_some hfind
      obtain ⟨hcs, hall1⟩ := hall.checkElements hslots ha hcheck
      exact ⟨hcs.fills, hall1,
        .inr ⟨⟨anchor, rfl, hcs.fills.complete_type ha⟩, hcs.complete⟩⟩
    · exact ⟨.refl _, hall, .inl rfl⟩
  have hnode1 : c1.nodeType? node.id = none := (hf1.others _ List.not_mem_nil).trans hnode
  have hf2 := fills_setShape_alloc hnode1 hset
  obtain ⟨rfl, hsize, hget, hy, hold⟩ := Context.setShape_alloc hnode1 hset
  refine ⟨(hf1.mono fun _ hz => .inl hz).trans (hf2.mono fun _ hz => hz.trans_le
    (hlo.trans hf1.size)), ⟨c.types.size, _, _, hall1.frame (hf2.mono fun _ hz =>
      hz.2.trans_le hf1.size), hx, hget, hlo, hf1.size, Nat.lt_succ_self _, by omega, ?_⟩, hx⟩
  rw [hy]
  refine hshape.imp_right fun ⟨⟨a, ha, hac⟩, hcomplete⟩ =>
    ⟨?_, fun n hn => hf2.complete (hcomplete n hn)⟩
  have hac' := TypeStore.isIncomplete_eq_false_iff.mp (hf2.complete_type hac)
  rw [TypeStore.components, hold a (TypeStore.lt_of_complete hac), ← ha, ← hy] at hac'
  exact TypeStore.isIncomplete_eq_false_iff.mpr hac'

/-- A slot of its own for a node without one. -/
lemma fills_setShape (hn : c.nodeType? n = none) (h : c.setShape n shape = (x, c')) :
    Context.Fills [n] (· < c.types.size) c c' ∧ c.types.size ≤ x ∧ x < c'.types.size ∧
      c'.types.get x = shape := by
  rw [Context.setShape_of_none hn] at h
  cases h
  exact ⟨.allocFor n shape hn, Nat.le_refl _,
    (Nat.lt_succ_self _).trans_eq (TypeStore.size_alloc _ _).symm,
    (TypeStore.get_alloc _ _ _).trans (if_pos rfl)⟩

mutual

/-- What resolution leaves for inference. -/
lemma fillable_expr : ∀ {e : Expr} {s s' : Resolving} {x : Slot}, e.isData = true →
    e.nodes.Nodup → (∀ n ∈ e.nodes, s.nodeType? n = none) → Runs (expr plan demand e) s x s' →
      Context.Fills e.nodes (· < s.types.size) s.toContext s'.toContext ∧
        e.Fillable s'.toContext s.types.size s'.types.size ∧ s'.nodeType? e.node.id = some x
  | .literal node value, s, s', x, _, _, hnone, hr => by
    simp only [expr, runs_lift, Check.runs_setShape] at hr
    obtain ⟨c', hset, rfl⟩ := hr
    have hx := Context.nodeType?_of_setShape hset
    obtain ⟨hf, hle, hlt, hget⟩ := fills_setShape (hnone _ (List.mem_singleton_self _)) hset
    refine ⟨hf, ?_, hx⟩
    cases value with
    | null => exact ⟨x, hx, hle, hlt, .inl hget⟩
    | integer | float | string | boolean =>
      refine ⟨x, hx, TypeStore.isIncomplete_eq_false_iff.mpr ?_⟩
      rw [TypeStore.components, hget]
      exact ⟨rfl, by simp [Literal.shape?, Shape.components]⟩
  | .shorthand node item, s, s', x, _, _, hnone, hr => by
    simp only [expr, runs_lift, Check.runs_setShape] at hr
    obtain ⟨c', hset, rfl⟩ := hr
    have hx := Context.nodeType?_of_setShape hset
    obtain ⟨hf, hle, hlt, hget⟩ := fills_setShape (hnone _ (List.mem_singleton_self _)) hset
    exact ⟨hf, ⟨x, hx, hle, hlt, .inl hget⟩, hx⟩
  | .array node elements, s, s', x, hdata, hnd, hnone, hr => by
    simp only [expr, runs_bind, runs_lift] at hr
    obtain ⟨slots, s1, hes, c', hrule, rfl⟩ := hr
    obtain ⟨hnot, hnd⟩ := List.nodup_cons.mp hnd
    obtain ⟨hnode, hnone⟩ := List.forall_mem_cons.mp hnone
    obtain ⟨hf, hall, hslots⟩ := fillable_exprs hdata hnd hnone hes
    obtain ⟨hf', hfill, hx⟩ :=
      fillable_arrayRule ((hf.others _ hnot).trans hnode) hf.size hall hslots hrule
    exact ⟨hf.node hf', hfill, hx⟩
  | .record node values, s, s', x, hdata, hnd, hnone, hr => by
    simp only [expr, runs_bind, runs_get, runs_lift, Check.runs_setShape] at hr
    obtain ⟨fields, s1, hvs, _, _, ⟨rfl, rfl⟩, c', hset, rfl⟩ := hr
    obtain ⟨hnot, hnd⟩ := List.nodup_cons.mp hnd
    obtain ⟨hnode, hnone⟩ := List.forall_mem_cons.mp hnone
    obtain ⟨hf, hall, hfields⟩ := fillable_fieldValues hdata hnd hnone hvs
    have hx := Context.nodeType?_of_setShape hset
    obtain ⟨hf', hle, hlt, hget⟩ := fills_setShape ((hf.others _ hnot).trans hnode) hset
    exact ⟨hf.node (hf'.mono fun _ hz => hz.trans_le hf.size), ⟨s1.types.size, x, _, fields,
      hall.frame (hf'.mono fun _ hz => hz.2), hx, hget, hf.size, hle, hlt, hf'.fields hfields⟩, hx⟩

lemma fillable_exprs : ∀ {es : List Expr} {s s' : Resolving} {slots : List Slot},
    Expr.allData es = true → (Expr.nodesAll es).Nodup →
    (∀ n ∈ Expr.nodesAll es, s.nodeType? n = none) → Runs (exprs plan demand es) s slots s' →
      Context.Fills (Expr.nodesAll es) (· < s.types.size) s.toContext s'.toContext ∧
        Expr.AllFillable s'.toContext s.types.size s'.types.size es ∧
          slots.map some = es.map fun e => s'.nodeType? e.node.id
  | [], _, _, _, _, _, _, hr => by
    simp only [exprs, runs_pure] at hr
    obtain ⟨rfl, rfl⟩ := hr
    exact ⟨.refl _, trivial, rfl⟩
  | e :: rest, s, s', _, hdata, hnd, hnone, hr => by
    simp only [exprs, runs_bind, runs_pure] at hr
    obtain ⟨x, s1, he, slots, s2, hes, rfl, rfl⟩ := hr
    obtain ⟨hdata1, hdata2⟩ := (Bool.and_eq_true _ _).mp hdata
    obtain ⟨hnd1, hnd2, hdisjoint⟩ := List.nodup_append'.mp hnd
    obtain ⟨hnone1, hnone2⟩ := List.forall_mem_append.mp hnone
    obtain ⟨hf1, hfill, hx⟩ := fillable_expr hdata1 hnd1 hnone1 he
    obtain ⟨hf2, hall, hslots⟩ := fillable_exprs hdata2 hnd2
      (fun n hn => (hf1.others n fun hn' => hdisjoint hn' hn).trans (hnone2 n hn)) hes
    refine ⟨hf1.trans (hf2.mono fun _ hz => hz.trans_le hf1.size), ⟨_, hf1.size, hf2.size,
      hfill.frame (hf2.mono fun _ hz => hz.2), hall⟩, ?_⟩
    rw [List.map_cons, List.map_cons, hslots, hf2.nodes _ _ hx]

lemma fillable_fieldValues : ∀ {values : List FieldValue} {s s' : Resolving}
    {fields : List (String × Slot)}, FieldValue.allData values = true →
    (FieldValue.nodesAll values).Nodup → (∀ n ∈ FieldValue.nodesAll values, s.nodeType? n = none) →
    Runs (fieldValues plan demand values) s fields s' →
      Context.Fills (FieldValue.nodesAll values) (· < s.types.size) s.toContext s'.toContext ∧
        FieldValue.AllFillable s'.toContext s.types.size s'.types.size values ∧
          fields.map (fun f => some f.2) = values.map fun f => s'.nodeType? f.value.node.id
  | [], _, _, _, _, _, _, hr => by
    simp only [fieldValues, runs_pure] at hr
    obtain ⟨rfl, rfl⟩ := hr
    exact ⟨.refl _, trivial, rfl⟩
  | ⟨_, _, value⟩ :: rest, s, s', _, hdata, hnd, hnone, hr => by
    simp only [fieldValues, runs_bind, runs_pure] at hr
    obtain ⟨x, s1, he, fields, s2, hes, rfl, rfl⟩ := hr
    obtain ⟨hdata1, hdata2⟩ := (Bool.and_eq_true _ _).mp hdata
    obtain ⟨hnd1, hnd2, hdisjoint⟩ := List.nodup_append'.mp hnd
    obtain ⟨hnone1, hnone2⟩ := List.forall_mem_append.mp hnone
    obtain ⟨hf1, hfill, hx⟩ := fillable_expr hdata1 hnd1 hnone1 he
    obtain ⟨hf2, hall, hslots⟩ := fillable_fieldValues hdata2 hnd2
      (fun n hn => (hf1.others n fun hn' => hdisjoint hn' hn).trans (hnone2 n hn)) hes
    refine ⟨hf1.trans (hf2.mono fun _ hz => hz.trans_le hf1.size), ⟨_, hf1.size, hf2.size,
      hfill.frame (hf2.mono fun _ hz => hz.2), hall⟩, ?_⟩
    rw [List.map_cons, List.map_cons, hslots, hf2.nodes _ _ hx]

end

/-- **Inference leaves no placeholder behind**: once such a value has met a complete type, all of it
is complete, and the value fits the type or what the type is optional of. -/
theorem data_completed {e : Expr} {target found : Slot} {site : Site} {c : Context}
    (hdata : e.isData = true) (hnd : e.nodes.Nodup) (hnone : ∀ n ∈ e.nodes, s.nodeType? n = none)
    (htarget : s.types.isIncomplete target = false) (hr : Runs (expr plan demand e) s found s')
    (hcheck : Runs (checkAssignable target e found site) s'.toContext () c) :
    (∀ n ∈ e.nodes, c.Complete n) ∧
      (Relation.plain.holds c.types target found = true ∨
        ∃ inner, c.types.optionalInner? target = some inner ∧
          Relation.plain.holds c.types inner found = true) := by
  obtain ⟨hf, hfill, hx⟩ := fillable_expr hdata hnd hnone hr
  obtain ⟨hinfer, hfits⟩ := runs_checkAssignable hcheck
  have ht := hf.complete_type htarget
  have hcomplete : Context.Completes s.types.size s'.types.size e.nodes s'.toContext c := by
    rcases hinfer with ⟨-, -, hinfer⟩ | ⟨hnot, rfl⟩
    · exact (hfill.infer ht hinfer).1
    · refine ⟨.refl _, hfill.complete hx ?_⟩
      simpa [ht] using hnot
  refine ⟨hcomplete.complete, ?_⟩
  obtain ⟨x, hx', hxc⟩ := hcomplete.complete _ e.node_mem_nodes
  obtain rfl : found = x := Option.some.inj ((hcomplete.fills.nodes _ _ hx).symm.trans hx')
  rcases hfits with h | h | h
  · rw [hcomplete.fills.complete_type ht] at h
    cases h
  · rw [hxc] at h
    cases h
  · simpa [TypeStore.fits, Option.any_eq_true] using h

/-- A value with a placeholder of every kind, some filled from an anchor and some from outside. -/
def emptyValues : Expr :=
  (StateT.run (m := Id) (do
    let rows ← Draft.array [← Draft.array [], ← Draft.array [← Draft.literal (.integer "1")]]
    let holes ← Draft.array [← Draft.literal .null]
    Draft.record [("rows", rows), ("holes", holes), ("color", ← Draft.shorthand "red")]) {}).1

/-- The types that the value meets, the last of them a record. -/
def expectations : Resolving where
  types := ⟨#[.number .int, .generic "Array" [0], .generic "Array" [1], .generic "Optional" [0],
    .generic "Array" [3], .enumItem 0 "red" [], .enum 0 "Color" [5],
    .record 0 [("rows", 2), ("holes", 4), ("color", 6)]]⟩

theorem data_completed_emptyValues : ∃ found s' c,
    Runs (expr {} (Resolve.demand {}) emptyValues) expectations found s' ∧
    Runs (checkAssignable 7 emptyValues found .assignment) s'.toContext () c ∧
    s'.types.display found =
      "\x7brows: Array<Array<Int>>, holes: Array<<deferred>>, color: <deferred>\x7d" ∧
    (∀ n ∈ emptyValues.nodes, c.Complete n) ∧
      (Relation.plain.holds c.types 7 found = true ∨
        ∃ inner, c.types.optionalInner? 7 = some inner ∧
          Relation.plain.holds c.types inner found = true) := by
  have hr : Runs (expr {} (Resolve.demand {}) emptyValues) expectations 19 _ :=
    runs_of_toOption (by decide +kernel)
  have hcheck : Runs (checkAssignable 7 emptyValues 19 .assignment) _ () _ :=
    runs_of_toOption (s := (((expr {} (Resolve.demand {}) emptyValues).outcome
      expectations).2).toContext) (by decide +kernel)
  exact ⟨19, _, _, hr, hcheck, by decide +kernel,
    data_completed (by decide +kernel) (by decide +kernel) (by decide +kernel)
      (by decide +kernel) hr
      hcheck⟩

end Resolve

end

end Sema
