import Mathlib.Data.List.Forall2
import Mathlib.Logic.Relation
import Sema.Proofs.Displayed
import Sema.Proofs.Signed

/-!
How annotations are written. The type of an annotation does not contain itself, and so it is
displayed layer by layer: its layers follow the annotation, down to names, which stand for built-in
types or for classes and enums.
-/

namespace Sema

/-! ### Annotations as they are written -/

/-- `Int` and `Float` have a second name, which is not used when they are displayed. -/
def canonicalName (name : String) : String :=
  if name = "Int32" then "Int" else if name = "Float64" then "Float" else name

mutual

/-- An annotation, written in the canonical form. -/
def TypeExpr.print : TypeExpr → String
  | .named _ name [] => canonicalName name.name
  | .named _ name (argument :: rest) =>
    name.name ++ "<" ++ commaSeparated (argument.print :: TypeExpr.printAll rest) ++ ">"
  | .function _ parameters returns =>
    "(" ++ commaSeparated (TypeExpr.printAll parameters) ++ ") -> " ++ match returns with
      | some type => type.print
      | none => "Void"
  | .record _ fields => "\x7b" ++ commaSeparated (FieldType.printAll fields) ++ "\x7d"
  | .inlineEnum _ items => "enum \x7b " ++ commaSeparated (EnumItem.printAll items) ++ " \x7d"

def TypeExpr.printAll : List TypeExpr → List String
  | [] => []
  | type :: rest => type.print :: TypeExpr.printAll rest

def FieldType.printAll : List FieldType → List String
  | [] => []
  | ⟨_, name, type⟩ :: rest => (name.name ++ ": " ++ type.print) :: FieldType.printAll rest

def EnumItem.print : EnumItem → String
  | ⟨_, name, []⟩ => name.name
  | ⟨_, name, type :: rest⟩ =>
    name.name ++ "(" ++ commaSeparated (type.print :: TypeExpr.printAll rest) ++ ")"

def EnumItem.printAll : List EnumItem → List String
  | [] => []
  | item :: rest => item.print :: EnumItem.printAll rest

end

mutual

/-- The names in an annotation: those of types, of fields and of enum items. -/
def TypeExpr.names : TypeExpr → List String
  | .named _ name arguments => name.name :: TypeExpr.namesAll arguments
  | .function _ parameters returns => TypeExpr.namesAll parameters ++ match returns with
    | some type => type.names
    | none => []
  | .record _ fields => FieldType.namesAll fields
  | .inlineEnum _ items => EnumItem.namesAll items

def TypeExpr.namesAll : List TypeExpr → List String
  | [] => []
  | type :: rest => type.names ++ TypeExpr.namesAll rest

def FieldType.namesAll : List FieldType → List String
  | [] => []
  | ⟨_, name, type⟩ :: rest => name.name :: (type.names ++ FieldType.namesAll rest)

def EnumItem.names : EnumItem → List String
  | ⟨_, name, payload⟩ => name.name :: TypeExpr.namesAll payload

def EnumItem.namesAll : List EnumItem → List String
  | [] => []
  | item :: rest => item.names ++ EnumItem.namesAll rest

end

/-- The text has no dots, and so it is not cut short anywhere. -/
def Dotless (text : String) : Prop :=
  '.' ∉ text.toList

instance (text : String) : Decidable (Dotless text) :=
  inferInstanceAs (Decidable ('.' ∉ text.toList))

lemma Dotless.append {a b : String} (ha : Dotless a) (hb : Dotless b) : Dotless (a ++ b) := by
  rw [Dotless, String.toList_append, List.mem_append, not_or]
  exact ⟨ha, hb⟩

lemma Dotless.commaSeparated : ∀ {parts : List String}, (∀ part ∈ parts, Dotless part) →
    Dotless (commaSeparated parts)
  | [], _ => by decide
  | [part], h => by simpa [Sema.commaSeparated] using h
  | part :: next :: parts, h => by
    obtain ⟨hpart, hrest⟩ := List.forall_mem_cons.mp h
    have hlist : Sema.commaSeparated (part :: next :: parts) =
        part ++ ", " ++ Sema.commaSeparated (next :: parts) := by
      simp [Sema.commaSeparated, String.intercalate_cons_cons]
    rw [hlist]
    exact (hpart.append (by decide)).append (Dotless.commaSeparated hrest)

lemma dotless_canonicalName {name : String} (h : Dotless name) : Dotless (canonicalName name) := by
  unfold canonicalName
  split
  · decide
  · split
    · decide
    · exact h

mutual

/-- Whatever dots an annotation is written with are in its names. -/
lemma TypeExpr.dotless_print : ∀ {type : TypeExpr}, (∀ name ∈ type.names, Dotless name) →
    Dotless type.print
  | .named _ name [], h => dotless_canonicalName (h _ List.mem_cons_self)
  | .named _ name (argument :: rest), h => by
    obtain ⟨hname, hargs⟩ := List.forall_mem_cons.mp h
    have hparts : ∀ text ∈ TypeExpr.printAll (argument :: rest), Dotless text :=
      TypeExpr.dotless_printAll hargs
    exact ((hname.append (by decide)).append (.commaSeparated hparts)).append (by decide)
  | .function _ parameters none, h => by
    simp only [TypeExpr.names, List.append_nil] at h
    have hparts := TypeExpr.dotless_printAll h
    exact ((Dotless.append (by decide) (.commaSeparated hparts)).append (by decide)).append
      (by decide)
  | .function _ parameters (some type), h => by
    obtain ⟨hps, htype⟩ := List.forall_mem_append.mp h
    have hparts := TypeExpr.dotless_printAll hps
    exact ((Dotless.append (by decide) (.commaSeparated hparts)).append (by decide)).append
      (TypeExpr.dotless_print htype)
  | .record _ fields, h =>
    (Dotless.append (by decide) (.commaSeparated (FieldType.dotless_printAll h))).append (by decide)
  | .inlineEnum _ items, h =>
    (Dotless.append (by decide) (.commaSeparated (EnumItem.dotless_printAll h))).append (by decide)

lemma TypeExpr.dotless_printAll : ∀ {types : List TypeExpr},
    (∀ name ∈ TypeExpr.namesAll types, Dotless name) →
      ∀ text ∈ TypeExpr.printAll types, Dotless text
  | [], _ => by simp [TypeExpr.printAll]
  | type :: rest, h => by
    obtain ⟨h1, h2⟩ := List.forall_mem_append.mp h
    exact List.forall_mem_cons.mpr ⟨TypeExpr.dotless_print h1, TypeExpr.dotless_printAll h2⟩

lemma FieldType.dotless_printAll : ∀ {fields : List FieldType},
    (∀ name ∈ FieldType.namesAll fields, Dotless name) →
      ∀ text ∈ FieldType.printAll fields, Dotless text
  | [], _ => by simp [FieldType.printAll]
  | ⟨_, name, type⟩ :: rest, h => by
    obtain ⟨hname, h⟩ := List.forall_mem_cons.mp h
    obtain ⟨h1, h2⟩ := List.forall_mem_append.mp h
    exact List.forall_mem_cons.mpr ⟨(hname.append (by decide)).append (TypeExpr.dotless_print h1),
      FieldType.dotless_printAll h2⟩

lemma EnumItem.dotless_print : ∀ {item : EnumItem}, (∀ name ∈ item.names, Dotless name) →
    Dotless item.print
  | ⟨_, name, []⟩, h => h _ List.mem_cons_self
  | ⟨_, name, type :: rest⟩, h => by
    obtain ⟨hname, hpayload⟩ := List.forall_mem_cons.mp h
    have hparts : ∀ text ∈ TypeExpr.printAll (type :: rest), Dotless text :=
      TypeExpr.dotless_printAll hpayload
    exact ((hname.append (by decide)).append (.commaSeparated hparts)).append (by decide)

lemma EnumItem.dotless_printAll : ∀ {items : List EnumItem},
    (∀ name ∈ EnumItem.namesAll items, Dotless name) →
      ∀ text ∈ EnumItem.printAll items, Dotless text
  | [], _ => by simp [EnumItem.printAll]
  | item :: rest, h => by
    obtain ⟨h1, h2⟩ := List.forall_mem_append.mp h
    exact List.forall_mem_cons.mpr ⟨EnumItem.dotless_print h1, EnumItem.dotless_printAll h2⟩

end

mutual

/-- An annotation and all annotations in it. -/
def TypeExpr.all : TypeExpr → List TypeExpr
  | .named node name arguments => .named node name arguments :: TypeExpr.allOf arguments
  | .function node parameters returns =>
    .function node parameters returns :: (TypeExpr.allOf parameters ++ match returns with
      | some type => type.all
      | none => [])
  | .record node fields => .record node fields :: FieldType.allOf fields
  | .inlineEnum node items => .inlineEnum node items :: EnumItem.allOf items

def TypeExpr.allOf : List TypeExpr → List TypeExpr
  | [] => []
  | type :: rest => type.all ++ TypeExpr.allOf rest

def FieldType.allOf : List FieldType → List TypeExpr
  | [] => []
  | ⟨_, _, type⟩ :: rest => type.all ++ FieldType.allOf rest

def EnumItem.all : EnumItem → List TypeExpr
  | ⟨_, _, payload⟩ => TypeExpr.allOf payload

def EnumItem.allOf : List EnumItem → List TypeExpr
  | [] => []
  | item :: rest => item.all ++ EnumItem.allOf rest

end

mutual

/-- The layers of an annotation that is inside another one are among the layers of that. -/
lemma TypeExpr.layers_subset (early : Bool) : ∀ {type : TypeExpr}, ∀ part ∈ type.all,
    part.layers early ⊆ type.layers early
  | .named node name arguments => List.forall_mem_cons.mpr ⟨fun _ h => h, fun part hpart =>
      List.subset_cons_of_subset _ (TypeExpr.layersAll_subset early part hpart)⟩
  | .function node parameters none => by
    simp only [TypeExpr.all, TypeExpr.layers, List.append_nil]
    refine List.forall_mem_cons.mpr ⟨?_, fun part hpart =>
      List.subset_cons_of_subset _ (TypeExpr.layersAll_subset early part hpart)⟩
    simp [TypeExpr.layers]
  | .function node parameters (some type) => by
    refine List.forall_mem_cons.mpr ⟨fun _ h => h, List.forall_mem_append.mpr
      ⟨fun part hpart => ?_, fun part hpart => ?_⟩⟩
    · exact List.subset_cons_of_subset _
        (List.subset_append_of_subset_left _ (TypeExpr.layersAll_subset early part hpart))
    · exact List.subset_cons_of_subset _
        (List.subset_append_of_subset_right _ (TypeExpr.layers_subset early part hpart))
  | .record node fields => List.forall_mem_cons.mpr ⟨fun _ h => h, fun part hpart =>
      List.subset_cons_of_subset _ (FieldType.layersAll_subset early part hpart)⟩
  | .inlineEnum node items => List.forall_mem_cons.mpr ⟨fun _ h => h, fun part hpart =>
      List.subset_cons_of_subset _ (EnumItem.layersAll_subset early part hpart)⟩

lemma TypeExpr.layersAll_subset (early : Bool) : ∀ {types : List TypeExpr},
    ∀ part ∈ TypeExpr.allOf types, part.layers early ⊆ TypeExpr.layersAll early types
  | [] => by simp [TypeExpr.allOf]
  | type :: rest => List.forall_mem_append.mpr
    ⟨fun part hpart =>
      List.subset_append_of_subset_left _ (TypeExpr.layers_subset early part hpart),
    fun part hpart =>
      List.subset_append_of_subset_right _ (TypeExpr.layersAll_subset early part hpart)⟩

lemma FieldType.layersAll_subset (early : Bool) : ∀ {fields : List FieldType},
    ∀ part ∈ FieldType.allOf fields, part.layers early ⊆ FieldType.layersAll early fields
  | [] => by simp [FieldType.allOf]
  | ⟨_, _, type⟩ :: rest => List.forall_mem_append.mpr
    ⟨fun part hpart =>
      List.subset_append_of_subset_left _ (TypeExpr.layers_subset early part hpart),
    fun part hpart =>
      List.subset_append_of_subset_right _ (FieldType.layersAll_subset early part hpart)⟩

lemma EnumItem.layers_subset (early : Bool) : ∀ {item : EnumItem},
    ∀ part ∈ item.all, part.layers early ⊆ item.layers early
  | ⟨_, _, _⟩ => fun part hpart =>
    List.subset_cons_of_subset _ (TypeExpr.layersAll_subset early part hpart)

lemma EnumItem.layersAll_subset (early : Bool) : ∀ {items : List EnumItem},
    ∀ part ∈ EnumItem.allOf items, part.layers early ⊆ EnumItem.layersAll early items
  | [] => by simp [EnumItem.allOf]
  | item :: rest => List.forall_mem_append.mpr
    ⟨fun part hpart =>
      List.subset_append_of_subset_left _ (EnumItem.layers_subset early part hpart),
    fun part hpart =>
      List.subset_append_of_subset_right _ (EnumItem.layersAll_subset early part hpart)⟩

end

namespace TypeStore

variable {t : TypeStore} {x : Slot} {text : String}

/-- The type is finite, and this is how it is displayed. -/
structure Prints (t : TypeStore) (x : Slot) (text : String) : Prop where
  finite : t.Finite x
  display : t.display x = text

/-- A layer is written with what its components are written as. -/
lemma prints_of_layer (hfinite : ∀ y ∈ (t.get x).components, t.Finite y)
    (h : (t.get x).display t.display = text) : t.Prints x text := by
  have hx : t.Finite x := ⟨x, hfinite⟩
  exact ⟨hx, hx.display_eq.trans h⟩

/-- Slots with the texts of their types. -/
def PrintsAll (t : TypeStore) (slots : List Slot) (texts : List String) : Prop :=
  List.Forall₂ t.Prints slots texts

namespace PrintsAll

variable {slots : List Slot} {texts : List String}

lemma finite (h : t.PrintsAll slots texts) : ∀ y ∈ slots, t.Finite y := by
  induction h with
  | nil => simp
  | cons hx _ ih => exact List.forall_mem_cons.mpr ⟨hx.finite, ih⟩

lemma map_display (h : t.PrintsAll slots texts) : slots.map t.display = texts := by
  induction h with
  | nil => rfl
  | cons hx _ ih => rw [List.map_cons, hx.display, ih]

end PrintsAll

end TypeStore

namespace Context

open Layer (Holders Fields)

variable {L : List (NodeId × Tag)} {early : Bool} {c : Context}
  {slots : List (String × Slot)} {x : Slot} {name : String}

lemma prints_leaf (h : (c.types.get x).components = []) :
    c.types.Prints x ((c.types.get x).display c.types.display) :=
  TypeStore.prints_of_layer (by simp [h]) rfl

lemma display_number {type : NumberType} (h : NumberType.ofName? name = some type) :
    type.display = canonicalName name := by
  have hnames : ∀ p ∈ NumberType.names, p.2.display = canonicalName p.1 := by decide
  obtain ⟨l1, l2, heq, -⟩ := List.lookup_eq_some_iff.mp h
  exact hnames (name, type) (by rw [heq]; simp)

lemma prints_builtin {shape : Shape} (h : Shape.builtin? name = some shape)
    (hget : c.types.get x = shape) : c.types.Prints x (canonicalName name) := by
  have hleaf := prints_leaf (c := c) (x := x) (by rw [hget]; exact (TypeExpr.builtin?_leaf h).1)
  rw [hget] at hleaf
  suffices htext : shape.display c.types.display = canonicalName name from htext ▸ hleaf
  unfold Shape.builtin? at h
  split at h
  · next hname =>
    cases h
    rw [hname]
    rfl
  split at h
  · next hname =>
    cases h
    rw [hname]
    rfl
  split at h
  · next hname =>
    cases h
    rw [hname]
    rfl
  · obtain ⟨type, htype, rfl⟩ := Option.map_eq_some_iff.mp h
    exact display_number htype

/-- What is not built in has one name only. -/
lemma canonicalName_of_isReference (h : TypeExpr.isReference name [] = true) :
    canonicalName name = name := by
  unfold canonicalName
  split
  · next hname =>
    rw [hname] at h
    exact absurd h (by decide)
  · split
    · next hname =>
      rw [hname] at h
      exact absurd h (by decide)
    · rfl

/-- Classes and enums are written by name. -/
lemma prints_name (h : (c.types.get x).nominalName? = some name) : c.types.Prints x name := by
  have hleaf : (c.types.get x).components = [] ∧
      (c.types.get x).display c.types.display = name := by
    cases hget : c.types.get x with
    | object | enum =>
      rw [hget] at h
      exact ⟨rfl, Option.some.inj h⟩
    | _ =>
      rw [hget] at h
      cases h
  exact hleaf.2 ▸ prints_leaf hleaf.1

/-- Parameters of a function type are the slots of their annotations. -/
lemma holders_of_places {types : List TypeExpr} (h : Fields c (TypeExpr.places types) slots) :
    Holders c (types.map (·.node.id)) (slots.map Prod.snd) := by
  have haux : ∀ (types : List TypeExpr) (slots : List (String × Slot)) (k : Nat),
      Fields c ((types.zipIdx k).map fun p => (toString p.2, p.1.node.id)) slots →
        Holders c (types.map (·.node.id)) (slots.map Prod.snd) := by
    intro types
    induction types with
    | nil =>
      intro slots k h
      cases h
      exact .nil
    | cons type rest ih =>
      intro slots k h
      cases h with
      | cons hx hrest => exact .cons hx.2 (ih _ (k + 1) hrest)
  exact haux types slots 0 h

lemma prints_void (h : c.types.get x = .void) : c.types.Prints x "Void" := by
  have hleaf := prints_leaf (c := c) (x := x) (by rw [h]; rfl)
  rwa [h] at hleaf

lemma prints_function {r : Slot} {result : String} {texts : List String}
    (hget : c.types.get x = .function r slots) (hr : c.types.Prints r result)
    (hslots : c.types.PrintsAll (slots.map Prod.snd) texts) :
    c.types.Prints x ("(" ++ commaSeparated texts ++ ") -> " ++ result) := by
  refine TypeStore.prints_of_layer ?_ ?_ <;> rw [hget]
  · exact List.forall_mem_cons.mpr ⟨hr.finite, hslots.finite⟩
  · rw [Shape.display, hr.display, ← hslots.map_display, List.map_map]
    rfl

/-- Fields of a structure, with the texts of their types. -/
def PrintsFields (c : Context) (slots : List (String × Slot)) (texts : List String) : Prop :=
  (∀ f ∈ slots, c.types.Finite f.2) ∧
    slots.map (fun f => f.1 ++ ": " ++ c.types.display f.2) = texts

mutual

/-- **An annotation whose nodes hold their layers is displayed as it is written.** -/
lemma prints_of_signed (hn : c.Named L) : ∀ {type : TypeExpr} {x : Slot},
    Signed L (type.layers early) c → c.nodeType? type.node.id = some x →
      c.types.Prints x type.print
  | .named node name [], x, h, hx => by
    obtain ⟨y, hy, -, hholds⟩ := h _ List.mem_cons_self
    obtain rfl : y = x := Option.some.inj (hy.symm.trans hx)
    rw [TypeExpr.layer] at hholds
    split at hholds
    · next href =>
      have hname : (c.types.get y).nominalName? = some name.name := by
        rcases hholds with hslot | ⟨-, -, -, hname, -⟩
        · exact hn.typeSlot hslot
        · exact hname
      rw [TypeExpr.print, canonicalName_of_isReference href]
      exact prints_name hname
    · obtain ⟨hget, -, -, hplace⟩ := hholds
      rcases hb : Shape.builtin? name.name with _ | shape
      · rw [hb] at hplace
        cases hplace
      · rw [hb] at hget
        exact prints_builtin hb hget
  | .named node name [argument], x, h, hx => by
    simp only [TypeExpr.layers, TypeExpr.layersAll, List.append_nil] at h
    obtain ⟨⟨y, hy, -, hholds⟩, hargument⟩ := List.forall_mem_cons.mp h
    obtain rfl : y = x := Option.some.inj (hy.symm.trans hx)
    rw [TypeExpr.layer] at hholds
    split at hholds
    · obtain ⟨z, hz, hget⟩ := hholds
      have hprints := prints_of_signed hn hargument hz
      refine TypeStore.prints_of_layer ?_ ?_ <;> rw [hget]
      · exact List.forall_mem_singleton.mpr hprints.finite
      · rw [Shape.display, List.map_singleton, hprints.display]
        rfl
    · obtain ⟨-, -, -, hfalse⟩ := hholds
      cases hfalse
  | .named node name (argument :: second :: rest), x, h, hx => by
    obtain ⟨_, -, -, -, -, -, hfalse⟩ := h _ List.mem_cons_self
    cases hfalse
  | .function node parameters none, x, h, hx => by
    simp only [TypeExpr.layers, List.append_nil] at h
    obtain ⟨⟨y, hy, -, r, slots, hr, hslots, hget⟩, hps⟩ := List.forall_mem_cons.mp h
    obtain rfl : y = x := Option.some.inj (hy.symm.trans hx)
    have hprints := printsAll_of_signed hn hps (holders_of_places hslots)
    exact prints_function hget (prints_void hr.1) hprints
  | .function node parameters (some type), x, h, hx => by
    obtain ⟨⟨y, hy, -, r, slots, hr, hslots, hget⟩, hrest⟩ := List.forall_mem_cons.mp h
    obtain ⟨hps, htype⟩ := List.forall_mem_append.mp hrest
    obtain rfl : y = x := Option.some.inj (hy.symm.trans hx)
    have hprints := printsAll_of_signed hn hps (holders_of_places hslots)
    exact prints_function hget (prints_of_signed hn htype hr) hprints
  | .record node fields, x, h, hx => by
    obtain ⟨⟨y, hy, -, scope, slots, hslots, hget⟩, hfields⟩ := List.forall_mem_cons.mp h
    obtain rfl : y = x := Option.some.inj (hy.symm.trans hx)
    obtain ⟨hfinite, hdisplay⟩ := printsFields_of_signed hn hfields hslots
    refine TypeStore.prints_of_layer ?_ ?_ <;> rw [hget]
    · exact List.forall_mem_map.mpr hfinite
    · rw [Shape.display, hdisplay]
      rfl
  | .inlineEnum node items, x, h, hx => by
    obtain ⟨⟨y, hy, -, scope, slots, hslots, hget⟩, hitems⟩ := List.forall_mem_cons.mp h
    obtain rfl : y = x := Option.some.inj (hy.symm.trans hx)
    have hprints := printsAll_items_of_signed hn hitems hslots
    refine TypeStore.prints_of_layer ?_ ?_ <;> rw [hget]
    · exact hprints.finite
    · rw [Shape.display, hprints.map_display]
      rfl

lemma printsAll_of_signed (hn : c.Named L) : ∀ {types : List TypeExpr} {slots : List Slot},
    Signed L (TypeExpr.layersAll early types) c → Holders c (types.map (·.node.id)) slots →
      c.types.PrintsAll slots (TypeExpr.printAll types)
  | [], slots, _, hslots => by
    cases hslots
    exact .nil
  | type :: rest, slots, h, hslots => by
    obtain ⟨h1, h2⟩ := List.forall_mem_append.mp h
    cases hslots with
    | cons hx hrest => exact .cons (prints_of_signed hn h1 hx) (printsAll_of_signed hn h2 hrest)

lemma printsFields_of_signed (hn : c.Named L) :
    ∀ {fields : List FieldType} {slots : List (String × Slot)},
    Signed L (FieldType.layersAll early fields) c →
      Fields c (fields.map fun f => (f.name.name, f.type.node.id)) slots →
        c.PrintsFields slots (FieldType.printAll fields)
  | [], slots, _, hslots => by
    cases hslots
    exact ⟨by simp, rfl⟩
  | ⟨_, name, type⟩ :: rest, slots, h, hslots => by
    obtain ⟨h1, h2⟩ := List.forall_mem_append.mp h
    cases hslots with
    | cons hx hrest =>
      obtain ⟨hname, hx⟩ := hx
      have hprints := prints_of_signed hn h1 hx
      obtain ⟨hfinite, hdisplay⟩ := printsFields_of_signed hn h2 hrest
      refine ⟨List.forall_mem_cons.mpr ⟨hprints.finite, hfinite⟩, ?_⟩
      rw [List.map_cons, hdisplay, hprints.display, ← hname]
      rfl

lemma prints_item_of_signed (hn : c.Named L) : ∀ {item : EnumItem} {x : Slot},
    Signed L (item.layers early) c → c.nodeType? item.id = some x → c.types.Prints x item.print
  | ⟨node, name, payload⟩, x, h, hx => by
    obtain ⟨⟨y, hy, -, scope, slots, hslots, hget⟩, hpayload⟩ := List.forall_mem_cons.mp h
    obtain rfl : y = x := Option.some.inj (hy.symm.trans hx)
    have hprints := printsAll_of_signed hn hpayload hslots
    refine TypeStore.prints_of_layer ?_ ?_ <;> rw [hget]
    · exact hprints.finite
    · cases payload with
      | nil =>
        cases hslots
        rfl
      | cons type rest =>
        cases hslots
        rw [Shape.display, hprints.map_display]
        rfl

lemma printsAll_items_of_signed (hn : c.Named L) : ∀ {items : List EnumItem} {slots : List Slot},
    Signed L (EnumItem.layersAll early items) c → Holders c (items.map (·.id)) slots →
      c.types.PrintsAll slots (EnumItem.printAll items)
  | [], slots, _, hslots => by
    cases hslots
    exact .nil
  | item :: rest, slots, h, hslots => by
    obtain ⟨h1, h2⟩ := List.forall_mem_append.mp h
    cases hslots with
    | cons hx hrest =>
      exact .cons (prints_item_of_signed hn h1 hx) (printsAll_items_of_signed hn h2 hrest)

end

end Context

end Sema
