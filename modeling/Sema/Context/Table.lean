import Sema.Syntax.Location

/-!
Places with numbers: of an array, and of a finite map from nodes or slots, where the newest entry of
a number counts.
-/

namespace Sema

/-- Access to the places of an array. A place that is there is read or changed; what comes of an
access to one that is not there is left open. -/
class Access where
  read {α : Type} : Array α → Nat → Option α
  modify {α : Type} : Array α → Nat → (α → α) → Array α
  read_eq {α : Type} {a : Array α} {i : Nat} : i < a.size → read a i = a[i]?
  modify_eq {α : Type} {a : Array α} {i : Nat} (f : α → α) :
    i < a.size → modify a i f = a.modify i f

namespace Access

/-- As in this library: nothing is found there, and nothing changes. -/
instance usual : Access where
  read a i := a[i]?
  modify a i f := a.modify i f
  read_eq _ := rfl
  modify_eq _ _ := rfl

variable {α : Type} (a : Array α) (i : Nat)

@[simp] theorem read_usual : usual.read a i = a[i]? := rfl

@[simp] theorem modify_usual (f : α → α) : usual.modify a i f = a.modify i f := rfl

end Access

structure Table (β : Type) where
  entries : List (NodeId × β) := []
  deriving DecidableEq, Repr

namespace Table

variable {β : Type}

def get? (t : Table β) (n : NodeId) : Option β :=
  t.entries.lookup n

def insert (t : Table β) (n : NodeId) (b : β) : Table β :=
  ⟨(n, b) :: t.entries⟩

@[simp] theorem get?_empty (n : NodeId) : (⟨[]⟩ : Table β).get? n = none := rfl

theorem get?_insert (t : Table β) (n k : NodeId) (b : β) :
    (t.insert n b).get? k = if k = n then some b else t.get? k := by
  by_cases h : k = n
  · simp [insert, get?, h]
  · have hk : (k == n) = false := by simp [h]
    simp [insert, get?, List.lookup_cons, hk, h]

@[simp] theorem get?_insert_self (t : Table β) (n : NodeId) (b : β) :
    (t.insert n b).get? n = some b := by
  simp [get?_insert]

end Table

end Sema
