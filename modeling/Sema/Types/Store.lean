import Sema.Context.Table
import Sema.Types.Shape
import Sema.Graph.Closure
import Sema.Graph.Trail

/-!
The store of types. Several nodes may hold one slot, and a change of its contents is seen through
all of them. Slots are numbered in the order of allocation and never go away.
-/

namespace Sema

structure TypeStore where
  slots : Array Shape := #[]
  deriving DecidableEq, Repr

namespace TypeStore

def size (t : TypeStore) : Nat :=
  t.slots.size

def alloc (t : TypeStore) (shape : Shape) : Slot × TypeStore :=
  (t.size, ⟨t.slots.push shape⟩)

section

variable [Access]

/-- The contents of a slot; one that was never allocated counts as unknown. -/
def get (t : TypeStore) (s : Slot) : Shape :=
  (Access.read t.slots s).getD .unknown

def set (t : TypeStore) (s : Slot) (shape : Shape) : TypeStore :=
  ⟨Access.modify t.slots s fun _ => shape⟩

/-- Copies the contents of one slot into another. -/
def assign (t : TypeStore) (target source : Slot) : TypeStore :=
  if target = source then t else t.set target (t.get source)

/-- `T` for an `Optional<T>`. -/
def optionalInner? (t : TypeStore) (s : Slot) : Option Slot :=
  (t.get s).argumentOf? Shape.optionalName

/-- `T` for an `Array<T>`. -/
def arrayElement? (t : TypeStore) (s : Slot) : Option Slot :=
  (t.get s).argumentOf? Shape.arrayName

def base? (t : TypeStore) (s : Slot) : Option Slot :=
  (t.get s).base?

/-- What a type counts as in an expression: a function stands for its result. -/
def valueOf (t : TypeStore) (s : Slot) : Slot :=
  match t.get s with
  | .function returns _ => returns
  | _ => s

/-- Whether an enum with these items has one of this name. -/
def hasItem (t : TypeStore) (items : List Slot) (item : String) : Bool :=
  items.any fun s => (t.get s).isEnumItem item

/-! ### Placeholders -/

def components (t : TypeStore) (s : Slot) : List Slot :=
  (t.get s).components

/-- The slots that make up a type, seen through everything but classes and enums. -/
def parts (t : TypeStore) (s : Slot) : List Slot :=
  Graph.reachable t.components t.size s

/-- Whether some part of the type is still to be found out. Classes and enums are judged where
they are declared. -/
def isIncomplete (t : TypeStore) (s : Slot) : Bool :=
  (t.parts s).any fun p => (t.get p).isPlaceholder

/-- Whether inference could still fill in some part of the type. -/
def hasDeferred (t : TypeStore) (s : Slot) : Bool :=
  (t.parts s).any fun p => (t.get p).isDeferred

/-! ### Base classes -/

/-- A class followed by its base classes, nearest first, up to a repetition. -/
def lineage (t : TypeStore) (s : Slot) : List Slot :=
  Graph.trail t.base? t.size s

/-- The base classes of a class, nearest first, up to a repetition. -/
def bases (t : TypeStore) (s : Slot) : List Slot :=
  match t.base? s with
  | some base => t.lineage base
  | none => []

/-- The names at the start of a list of slots, up to a slot without a name or a name in `seen`. -/
def freshNames (t : TypeStore) (seen : List String) : List Slot → List String
  | [] => []
  | s :: rest =>
    match (t.get s).nominalName? with
    | none => []
    | some name => if name ∈ seen then [] else name :: freshNames t (name :: seen) rest

/-- The names of the base classes, nearest first, up to a repetition. -/
def ancestorNames (t : TypeStore) (s : Slot) : List String :=
  t.freshNames (t.get s).nominalName?.toList (t.bases s)

/-- Whether the base classes of a class lead back to its name. -/
def inheritsFromItself (t : TypeStore) (s : Slot) : Bool :=
  match (t.get s).nominalName? with
  | none => false
  | some name => (t.bases s).any fun b => (t.get b).nominalName? = some name

/-- The slot of a field or method: the class's own, or that of its nearest base class. -/
def findField? (t : TypeStore) (s : Slot) (name : String) : Option Slot :=
  (t.lineage s).findSome? fun c => (t.get c).fields.lookup name

end

@[simp] theorem size_alloc (t : TypeStore) (shape : Shape) :
    (t.alloc shape).2.size = t.size + 1 := by
  simp [alloc, size]

@[simp] theorem size_set (t : TypeStore) (s : Slot) (shape : Shape) :
    (t.set s shape).size = t.size := by
  simp [set, size]

@[simp] theorem size_assign (t : TypeStore) (target source : Slot) :
    (t.assign target source).size = t.size := by
  unfold assign
  split <;> simp

theorem get_alloc (t : TypeStore) (shape : Shape) (s : Slot) :
    (t.alloc shape).2.get s = if s = t.size then shape else t.get s := by
  by_cases h : s = t.slots.size <;> simp [alloc, get, size, Array.getElem?_push, h]

theorem get_set (t : TypeStore) (s k : Slot) (shape : Shape) (h : s < t.size) :
    (t.set s shape).get k = if k = s then shape else t.get k := by
  have hs : s < t.slots.size := h
  by_cases hk : k = s
  · simp [set, get, Array.getElem_modify, hk, hs]
  · simp [set, get, Array.getElem?_modify, hk, Ne.symm hk]

/-- After an assignment the target holds what the source holds, and nothing else has changed. -/
theorem get_assign (t : TypeStore) (target source k : Slot) (h : target < t.size) :
    (t.assign target source).get k = if k = target then t.get source else t.get k := by
  unfold assign
  split
  · next same =>
    subst same
    split
    · next hk => rw [hk]
    · rfl
  · exact get_set t target k _ h

end TypeStore

end Sema
