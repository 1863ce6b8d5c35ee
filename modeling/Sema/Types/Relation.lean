import Sema.Types.Store

/-!
Three ways in which two types can agree. The left type is the expected one: a record must bring
every field that it names, and may bring more.

* `plain` is for values that are stored, passed or returned;
* `value` is for operands, where a function counts as its result;
* `hierarchy` is for the operator `is`, where a class agrees with its base classes and with the
  classes derived from it.
-/

namespace Sema

inductive Relation where
  | plain
  | value
  | hierarchy
  deriving DecidableEq, Repr

namespace Relation

/-- Two lists agree when they are equally long and agree place by place. -/
def allAgree (agree : Slot → Slot → Bool) (as bs : List Slot) : Bool :=
  as.length = bs.length && (as.zip bs).all fun p => agree p.1 p.2

/-- Every field that is expected is there, first of its name, with a type that agrees. -/
def fieldsAgree (agree : Slot → Slot → Bool) (expected found : List (String × Slot)) : Bool :=
  expected.all fun f => (found.lookup f.1).any (agree f.2)

variable [Access]

/-- What an operand counts as. -/
def operand (r : Relation) (t : TypeStore) (s : Slot) : Slot :=
  match r with
  | value => t.valueOf s
  | _ => s

/-- When the classes in two slots, with the given names, agree. -/
def classesAgree (r : Relation) (t : TypeStore) (a b : Slot) (nameA nameB : String) : Bool :=
  match r with
  | hierarchy =>
    nameA = nameB || nameB ∈ t.ancestorNames a || nameA ∈ t.ancestorNames b
  | _ => nameA = nameB

/-- One layer of two types agrees, given when the slots in them do. -/
def layersAgree (r : Relation) (t : TypeStore) (agree : Slot → Slot → Bool) (a b : Slot) : Bool :=
  match t.get a, t.get b with
  | .void, .void => true
  | .unknown, .unknown => true
  | .deferred, .deferred => true
  | .boolean, .boolean => true
  | .string, .string => true
  | .number m, .number n => m = n
  | .function returnsA parametersA, .function returnsB parametersB =>
    allAgree agree (parametersA.map (·.2)) (parametersB.map (·.2)) && agree returnsA returnsB
  | .generic nameA argumentsA, .generic nameB argumentsB =>
    nameA = nameB && allAgree agree argumentsA argumentsB
  | .record _ fieldsA, .record _ fieldsB => fieldsAgree agree fieldsA fieldsB
  | .object _ _ nameA _, .object _ _ nameB _ => r.classesAgree t a b nameA nameB
  | .enum _ nameA _, .enum _ nameB _ => nameA = nameB
  | .enumItem _ nameA payloadA, .enumItem _ nameB payloadB =>
    nameA = nameB && allAgree agree payloadA payloadB
  | .inlineEnum _ itemsA, .inlineEnum _ itemsB => itemsA.any fun x => itemsB.any (agree x)
  | _, _ => false

/-- Two types agree down to a depth of `fuel`. A slot agrees with itself. -/
def holdsWithin (r : Relation) (t : TypeStore) : Nat → Slot → Slot → Bool
  | 0, _, _ => false
  | fuel + 1, a, b =>
    let a := r.operand t a
    let b := r.operand t b
    a = b || r.layersAgree t (r.holdsWithin t fuel) a b

/-- Two types agree. A comparison that comes back to the same two slots would never end, so the
number of pairs of slots bounds the depth of every comparison that does. -/
def holds (r : Relation) (t : TypeStore) (a b : Slot) : Bool :=
  r.holdsWithin t (t.size * t.size + 1) a b

end Relation

end Sema
