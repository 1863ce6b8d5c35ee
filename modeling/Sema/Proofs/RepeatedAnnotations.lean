import Sema.Analysis.Report
import Sema.Proofs.Intact
import Sema.Proofs.Keeps
import Sema.Proofs.Printed

/-!
Resolving an annotation again. The second time its nodes have slots, some of which they share with
classes and enums, and every layer of the annotation is stored once more, in place. It is the layer
that is there already, but for a function type without a result: each time a new slot stands for the
result that is missing. No one sees which slot that is.

A step that can be repeated is one that comes to the same value again, with or without tolerance,
and also after more has been resolved. Sequences of such steps are of this kind if the nodes that
they type are different ones, and an annotation is resolved by such a sequence.
-/

namespace Sema

open Sema.Action

/-! ### Types that are kept are written as before -/

/-- Layers that are alike are written alike, if their components are and so is every missing
result. -/
lemma Alike.display_congr {q : Prop} {t t' : TypeStore} {a b : Shape} {f g : Slot → String}
    (h : Alike q t t' a b) (hinner : ∀ y ∈ a.components, f y = g y)
    (hvoid : ∀ r r', r ∈ a.components → t.get r = .void → t'.get r' = .void → f r' = g r) :
    b.display f = a.display g := by
  cases h with
  | same h =>
    have hunscoped : ∀ s : Shape, s.unscoped.display f = s.display f := fun s => by cases s <;> rfl
    rw [← hunscoped b, ← h, hunscoped a, Shape.display_congr hinner]
  | @result r r' parameters hr hr' =>
    have hparameters : ∀ p ∈ parameters, f p.2 = g p.2 := fun p hp =>
      hinner _ (List.mem_cons_of_mem _ (List.mem_map_of_mem hp))
    simp only [Shape.display, List.map_congr_left hparameters, hvoid r r' List.mem_cons_self hr hr']
  | renamed hq ha hb =>
    rcases Shape.nominal_cases ha with ⟨_, _, _, rfl⟩ | ⟨_, _, rfl⟩ <;>
      rcases Shape.nominal_cases hb with ⟨_, _, _, rfl⟩ | ⟨_, _, rfl⟩ <;> rfl

namespace TypeStore

variable {t t' t'' : TypeStore} {x : Slot} {a b c : Shape}

lemma displayWithin_void {fuel : Nat} {path : List Slot} (h : t.get x = .void) (hpath : x ∉ path) :
    t.displayWithin fuel path x = if fuel = 0 then "..." else "Void" := by
  cases fuel with
  | zero => rfl
  | succ fuel =>
    rw [displayWithin, if_neg hpath, h]
    rfl

/-- To a given depth, too: a result that is missing is never one of the types around it. -/
lemma Keeps.displayWithin_eq {q : Prop} {Z : Slot → Prop} (h : Keeps q Z t t')
    (hclosed : t.Closed Z) :
    ∀ {fuel : Nat} {path : List Slot} {x : Slot}, (∀ p ∈ path, Z p ∧ t.get p ≠ .void) → Z x →
      t'.displayWithin fuel path x = t.displayWithin fuel path x
  | 0, _, _, _, _ => rfl
  | fuel + 1, path, x, hpath, hx => by
    rw [displayWithin, displayWithin]
    split
    · rfl
    have hinner : (t.get x).components ≠ [] → ∀ p ∈ x :: path, Z p ∧ t.get p ≠ .void := by
      refine fun hne => List.forall_mem_cons.mpr ⟨⟨hx, fun hvoid => hne ?_⟩, hpath⟩
      rw [hvoid]
      rfl
    refine (h x hx).display_congr (fun y hy => ?_) fun r r' hmem hr hr' => ?_
    · exact h.displayWithin_eq hclosed (hinner (List.ne_nil_of_mem hy)) (hclosed x hx y hy)
    · have hpath := hinner (List.ne_nil_of_mem hmem)
      have hnew : r' ∉ x :: path := fun hp => by
        have hvoid := (h r' (hpath r' hp).1).isVoid
        rw [hr'] at hvoid
        exact (hpath r' hp).2 (Shape.isVoid_iff.mp hvoid.symm)
      rw [displayWithin_void hr' hnew, displayWithin_void hr fun hp => (hpath r hp).2 hr]

/-- **A store in which all types are kept shows the same types.** -/
lemma Keeps.display_eq {q : Prop} (h : Keeps q (· < t.size) t t') (hclosed : t.Closed (· < t.size))
    (hsize : t.size ≤ t'.size) (hx : x < t.size) : t'.display x = t.display x := by
  obtain ⟨extra, hextra⟩ := Nat.exists_eq_add_of_le hsize
  rw [display, h.displayWithin_eq hclosed (by simp) hx, hextra, Nat.add_right_comm,
    displayWithin_of_size_lt]

/-! ### Functions with another slot for the result -/

/-- The second layer can be stored in the place of the first one: it is the same, or that of a
function whose missing result has another slot. -/
inductive Renewal (t : TypeStore) : Shape → Shape → Prop
  | same (a : Shape) : Renewal t a a
  | result {r r' : Slot} {parameters : List (String × Slot)} (hr : t.get r = .void)
      (hr' : t.get r' = .void) : Renewal t (.function r parameters) (.function r' parameters)

namespace Renewal

lemma symm (h : t.Renewal a b) : t.Renewal b a := by
  cases h with
  | same => exact same _
  | result hr hr' => exact result hr' hr

lemma trans (h : t.Renewal a b) (h' : t.Renewal b c) : t.Renewal a c := by
  cases h with
  | same => exact h'
  | result hr hr' =>
    cases h' with
    | same => exact result hr hr'
    | result _ hr'' => exact result hr hr''

lemma mono (h : t.Renewal a b) (hvoid : ∀ r, t.get r = .void → t'.get r = .void) :
    t'.Renewal a b := by
  cases h with
  | same => exact same _
  | result hr hr' => exact result (hvoid _ hr) (hvoid _ hr')

lemma eq_void_iff (h : t.Renewal a b) : a = .void ↔ b = .void := by
  cases h <;> simp

end Renewal

/-- The slots stay, and each of them holds what it held or a layer that could be stored in its
place. -/
structure Renews (t t' : TypeStore) : Prop where
  size_le : t.size ≤ t'.size
  renewal : ∀ x < t.size, t'.Renewal (t.get x) (t'.get x)

namespace Renews

lemma refl (t : TypeStore) : t.Renews t := ⟨le_rfl, fun _ _ => .same _⟩

lemma void (h : t.Renews t') (hx : t.get x = .void) : t'.get x = .void := by
  have hlt : x < t.size := by
    by_contra hx'
    rw [t.get_eq_unknown (Nat.le_of_not_lt hx')] at hx
    cases hx
  exact (h.renewal x hlt).eq_void_iff.mp hx

lemma trans (h : t.Renews t') (h' : t'.Renews t'') : t.Renews t'' :=
  ⟨h.size_le.trans h'.size_le, fun x hx =>
    ((h.renewal x hx).mono fun _ => h'.void).trans (h'.renewal x (hx.trans_le h.size_le))⟩

lemma alloc (t : TypeStore) (shape : Shape) : t.Renews (t.alloc shape).2 :=
  ⟨by simp, fun _ hx => t.get_alloc_of_lt shape hx ▸ .same _⟩

lemma set (h : t.Renewal (t.get x) a) : t.Renews (t.set x a) := by
  -- a slot that stands for a missing result is not that of the function
  have hvoid : t.get x ≠ a → ∀ r, t.get r = .void → (t.set x a).get r = .void := by
    intro hne r hr
    rw [get_set_of_ne, hr]
    rintro rfl
    exact hne (hr.trans (h.eq_void_iff.mp hr).symm)
  refine ⟨by simp, fun y hy => ?_⟩
  by_cases hxy : y = x
  · subst hxy
    rw [get_set t y y a hy, if_pos rfl]
    by_cases hsame : t.get y = a
    · exact hsame ▸ .same _
    · exact h.mono (hvoid hsame)
  · rw [get_set_of_ne _ _ hxy]
    exact .same _

/-- The slots for missing results belong to the types that are kept. -/
lemma keeps (h : t.Renews t') (hclosed : t.Closed (· < t.size)) :
    Keeps True (· < t.size) t t' := by
  intro x hx
  have hcomponents := hclosed x hx
  have hrenewal := h.renewal x hx
  unfold components at hcomponents
  generalize t.get x = layer, t'.get x = layer' at hrenewal hcomponents
  cases hrenewal with
  | same => exact .of_eq rfl
  | @result r r' parameters hr hr' =>
    exact .result ((h.renewal r (hcomponents r List.mem_cons_self)).eq_void_iff.mpr hr) hr'

end Renews

end TypeStore

/-! ### Contexts that differ by what was resolved -/

namespace Context

variable {c c1 c2 c3 : Context} {n : NodeId} {ns ms : List NodeId} {x : Slot} {shape shape' : Shape}

/-- A name of a type stands for the node. -/
def DeclaresType (c : Context) (n : NodeId) : Prop :=
  ∃ id sc, c.scope? id = some sc ∧ ∃ symbol ∈ sc.symbols, symbol.kind = .type ∧
    symbol.declaration = n

instance (c : Context) (n : NodeId) : Decidable (c.DeclaresType n) :=
  decidable_of_iff (∃ sc ∈ c.scopes.toList,
      ∃ symbol ∈ sc.symbols, symbol.kind = .type ∧ symbol.declaration = n) <| by
    simp only [DeclaresType, scope?_eq, Array.mem_toList_iff, Array.mem_iff_getElem?]
    exact ⟨fun ⟨sc, ⟨id, hsc⟩, h⟩ => ⟨id, sc, hsc, h⟩, fun ⟨id, sc, hsc, h⟩ => ⟨sc, ⟨id, hsc⟩, h⟩⟩

lemma declaresType_of_declarationOf? {name : String} (h : c.declarationOf? name .type = some n) :
    c.DeclaresType n := by
  obtain ⟨symbol, id, sc, hsc, hmem, hkind, -, hd⟩ := exists_of_declarationOf? h
  exact ⟨id, sc, hsc, symbol, hmem, hkind, hd⟩

/-- The scopes are the same, nodes keep their slots, and slots keep what they hold, up to the slots
of missing results. -/
structure Later (c c' : Context) : Prop where
  scopes : c'.scopes = c.scopes
  stack : c'.stack = c.stack
  nodeTypes : ∀ n x, c.nodeType? n = some x → c'.nodeType? n = some x
  types : c.types.Renews c'.types

namespace Later

lemma refl (c : Context) : c.Later c := ⟨rfl, rfl, fun _ _ => id, .refl _⟩

lemma trans (h : c.Later c1) (h' : c1.Later c2) : c.Later c2 :=
  ⟨h'.scopes.trans h.scopes, h'.stack.trans h.stack,
    fun n x hn => h'.nodeTypes n x (h.nodeTypes n x hn), h.types.trans h'.types⟩

lemma currentOrRoot (h : c.Later c1) : c1.currentOrRoot = c.currentOrRoot := by
  rw [Context.currentOrRoot, current?, h.stack]
  rfl

lemma declaresType (h : c.Later c1) : c1.DeclaresType n ↔ c.DeclaresType n := by
  simp only [DeclaresType, scope?_eq, h.scopes]

/-- What a name of a type stands for is read off the scopes alone. -/
lemma declarationOf? (h : c.Later c1) (name : String) :
    c1.declarationOf? name .type = c.declarationOf? name .type := by
  have hparent : c1.parent? = c.parent? := by
    funext id
    simp only [parent?, scope?_eq, h.scopes]
  have hlocal : (fun id => c1.findLocal? id name .type) = fun id => c.findLocal? id name .type := by
    funext id
    simp only [findLocal?, scope?_eq, h.scopes]
  have hat : c1.searchedAt .type = c.searchedAt .type := by
    funext id
    simp [searchedAt]
  rw [Context.declarationOf?, Context.declarationOf?, lookup?, lookup?, hlocal]
  simp only [searched, current?, h.stack, around, hparent, h.scopes, hat]

end Later

/-- Nodes outside `ns` have got no slots, but for those that declare a type. -/
structure Gains (ns : List NodeId) (c c' : Context) : Prop extends Later c c' where
  outside : ∀ n ∉ ns, ¬ c.DeclaresType n → c'.nodeType? n = c.nodeType? n

lemma Gains.mono (h : c.Gains ns c1) (hsub : ns ⊆ ms) : c.Gains ms c1 :=
  ⟨h.toLater, fun n hn => h.outside n fun hmem => hn (hsub hmem)⟩

lemma Gains.trans (h : c.Gains ns c1) (h' : c1.Gains ms c2) : c.Gains (ns ++ ms) c2 := by
  refine ⟨h.toLater.trans h'.toLater, fun n hn hd => ?_⟩
  obtain ⟨hns, hms⟩ := not_or.mp (mt List.mem_append.mpr hn)
  rw [h'.outside n hms (mt h.toLater.declaresType.mp hd), h.outside n hns hd]

/-- Different nodes that have no type and declare none. -/
structure Blank (c : Context) (ns : List NodeId) : Prop where
  nodup : ns.Nodup
  untyped : ∀ n ∈ ns, c.nodeType? n = none
  undeclared : ∀ n ∈ ns, ¬ c.DeclaresType n

namespace Blank

lemma perm (h : c.Blank ns) (hperm : ns.Perm ms) : c.Blank ms :=
  ⟨hperm.nodup h.nodup, fun n hn => h.untyped n (hperm.mem_iff.mpr hn),
    fun n hn => h.undeclared n (hperm.mem_iff.mpr hn)⟩

lemma left (h : c.Blank (ns ++ ms)) : c.Blank ns :=
  ⟨h.nodup.of_append_left, fun n hn => h.untyped n (List.mem_append_left _ hn),
    fun n hn => h.undeclared n (List.mem_append_left _ hn)⟩

lemma head (h : c.Blank (n :: ns)) : c.Blank [n] := left (show c.Blank ([n] ++ ns) from h)

/-- Nodes stay blank while others get types. -/
lemma right (h : c.Blank (ns ++ ms)) (hgains : c.Gains ns c1) : c1.Blank ms := by
  obtain ⟨-, hms, hdisjoint⟩ := List.nodup_append'.mp h.nodup
  have hdeclared : ∀ n ∈ ms, ¬ c.DeclaresType n := fun n hn =>
    h.undeclared n (List.mem_append_right _ hn)
  refine ⟨hms, fun n hn => ?_, fun n hn => mt hgains.toLater.declaresType.mp (hdeclared n hn)⟩
  rw [hgains.outside n (fun hns => hdisjoint hns hn) (hdeclared n hn)]
  exact h.untyped n (List.mem_append_right _ hn)

lemma of_gains_nil (h : c.Blank ns) (hgains : c.Gains [] c1) : c1.Blank ns :=
  right (show c.Blank ([] ++ ns) from h) hgains

end Blank

/-- No node has got a slot, or another one. -/
structure Renewed (c c' : Context) : Prop extends Later c c' where
  nodeType?_eq : ∀ n, c'.nodeType? n = c.nodeType? n

lemma Renewed.refl (c : Context) : c.Renewed c := ⟨.refl c, fun _ => rfl⟩

lemma Renewed.gains (h : c.Renewed c1) : c.Gains [] c1 := ⟨h.toLater, fun n _ _ => h.nodeType?_eq n⟩

lemma Renewed.trans (h : c.Renewed c1) (h' : c1.Renewed c2) : c.Renewed c2 :=
  ⟨h.toLater.trans h'.toLater, fun n => (h'.nodeType?_eq n).trans (h.nodeType?_eq n)⟩

/-- **No node has another type to show.** -/
lemma Renewed.displayType?_eq (h : c.Renewed c1) (hc : c.WellFormed) (n : NodeId) :
    c1.displayType? n = c.displayType? n := by
  have hclosed : c.types.Closed (· < c.types.size) := fun x _ y hy =>
    (hc.knows x).handles y (List.mem_append_left _ hy)
  rw [displayType?, displayType?, h.nodeType?_eq]
  rcases hn : c.nodeType? n with _ | x
  · rfl
  · have hkeeps := h.types.keeps hclosed
    exact congrArg some (hkeeps.display_eq hclosed h.types.size_le (hc.nodeTypes n x hn))

/-! ### Steps that can be repeated -/

/-- What a step comes to without tolerance it comes to again, from then on and with any tolerance,
and then no node gets a type. -/
def Repeatable {α : Type} (ns : List NodeId) (step : Tolerance → Check α) (c : Context) : Prop :=
  ∀ a c1, Runs (step .strict) c a c1 → c.Gains ns c1 ∧
    ∀ tolerance c2, c1.Later c2 → ∃ c3, Runs (step tolerance) c2 a c3 ∧ c2.Renewed c3

namespace Repeatable

variable {α β : Type} {step : Tolerance → Check α} {f : Tolerance → α → Check β}

lemma mono (h : c.Repeatable ns step) (hsub : ns ⊆ ms) : c.Repeatable ms step :=
  fun a c1 hrun => ⟨(h a c1 hrun).1.mono hsub, (h a c1 hrun).2⟩

lemma pure (a : α) : c.Repeatable [] fun _ => (Pure.pure a : Check α) := by
  intro b c1 hrun
  obtain ⟨rfl, rfl⟩ := runs_pure.mp hrun
  exact ⟨⟨.refl c, fun _ _ _ => rfl⟩, fun _ c2 _ => ⟨c2, by simp, .refl c2⟩⟩

lemma fail (cause : Cause) (l : Location) : c.Repeatable ns fun _ =>
    (Sema.fail cause l : Check α) :=
  fun _ _ hrun => by simp at hrun

/-- A step after another, at the nodes that this one has left alone. -/
lemma bind (h : c.Repeatable ns step)
    (hf : ∀ a c1, c.Gains ns c1 → c1.Repeatable ms fun tolerance => f tolerance a) :
    c.Repeatable (ns ++ ms) fun tolerance => step tolerance >>= f tolerance := by
  intro b c2 hrun
  obtain ⟨a, c1, h1, h2⟩ := runs_bind.mp hrun
  obtain ⟨hgains, hagain⟩ := h a c1 h1
  obtain ⟨hgains', hagain'⟩ := hf a c1 hgains b c2 h2
  refine ⟨hgains.trans hgains', fun tolerance c3 hlater => ?_⟩
  -- the first step is repeated after the second one has been made
  obtain ⟨c4, h4, hrenewed⟩ := hagain tolerance c3 (hgains'.toLater.trans hlater)
  obtain ⟨c5, h5, hrenewed'⟩ := hagain' tolerance c4 (hlater.trans hrenewed.toLater)
  exact ⟨c5, runs_bind.mpr ⟨a, c4, h4, h5⟩, hrenewed.trans hrenewed'⟩

/-- The steps of two lists of nodes, one after the other. -/
lemma append (h : c.Blank (ns ++ ms)) (hstep : c.Blank ns → c.Repeatable ns step)
    (hf : ∀ a {c1 : Context}, c1.Blank ms → c1.Repeatable ms fun tolerance => f tolerance a) :
    c.Repeatable (ns ++ ms) fun tolerance => step tolerance >>= f tolerance :=
  (hstep h.left).bind fun a _ hgains => hf a (h.right hgains)

/-- The step of a node after the ones of the nodes below it. -/
lemma parent (h : c.Blank (n :: ns)) (hstep : c.Blank ns → c.Repeatable ns step)
    (hf : ∀ a {c1 : Context}, c1.Blank [n] → c1.Repeatable [n] fun tolerance => f tolerance a) :
    c.Repeatable (n :: ns) fun tolerance => step tolerance >>= f tolerance :=
  (append (h.perm (List.perm_append_singleton n ns).symm) hstep hf).mono
    (List.perm_append_singleton n ns).subset

lemma map (h : c.Repeatable ns step) (g : α → β) :
    c.Repeatable ns fun tolerance => step tolerance >>= fun a => Pure.pure (g a) := by
  have hbind : c.Repeatable (ns ++ []) _ := h.bind fun a _ _ => .pure (g a)
  rwa [List.append_nil] at hbind

end Repeatable

lemma renewed_alloc (c : Context) (shape : Shape) : c.Renewed (c.alloc shape).2 :=
  ⟨⟨rfl, rfl, fun _ _ => id, .alloc _ _⟩, fun _ => rfl⟩

lemma get_alloc_self (c : Context) (shape : Shape) :
    (c.alloc shape).2.types.get c.types.size = shape :=
  (TypeStore.get_alloc _ _ _).trans (if_pos rfl)

/-- A node that has no slot gets one, new or old. -/
lemma gains_insert {types : TypeStore} (h : c.nodeType? n = none) (htypes : c.types.Renews types) :
    c.Gains [n] { c with types, nodeTypes := c.nodeTypes.insert n x } := by
  have hnode : ∀ m, nodeType? { c with types, nodeTypes := c.nodeTypes.insert n x } m =
      if m = n then some x else c.nodeType? m := nodeType?_insert c n (x := x)
  refine ⟨⟨rfl, rfl, fun m y hm => ?_, htypes⟩, fun m hm _ => ?_⟩
  · rw [hnode, if_neg, hm]
    rintro rfl
    cases h.symm.trans hm
  · rw [hnode, if_neg fun heq => hm (List.mem_singleton.mpr heq)]

/-- The slot of a node is set again, to a layer that could be stored in the place of the first
one. -/
lemma Later.setShape (h : c1.Later c2) (hn : c1.nodeType? n = some x) (hx : x < c1.types.size)
    (hget : c1.types.get x = shape) (hrenewal : c2.types.Renewal shape shape') :
    ∃ c3, c2.setShape n shape' = (x, c3) ∧ c2.Renewed c3 := by
  have hset : c2.types.Renewal (c2.types.get x) shape' :=
    (hget ▸ h.types.renewal x hx).symm.trans hrenewal
  exact ⟨_, setShape_of_some (h.nodeTypes n x hn) shape',
    ⟨rfl, rfl, fun _ _ => id, .set hset⟩, fun _ => rfl⟩

/-- A node that had no type is given one. -/
lemma gains_setShape (h : c.Blank [n]) (hset : c.setShape n shape = (x, c1)) :
    c.Gains [n] c1 ∧ c1.nodeType? n = some x ∧ x < c1.types.size ∧ c1.types.get x = shape := by
  have hnone := h.untyped n List.mem_cons_self
  have hn := nodeType?_of_setShape hset
  rw [setShape_of_none hnone] at hset
  obtain ⟨rfl, rfl⟩ := Prod.mk.inj hset
  exact ⟨gains_insert hnone (.alloc _ _), hn, by simp, c.get_alloc_self shape⟩

/-- A layer, which may name the scope that it stands in. -/
lemma repeatable_setShape (h : c.Blank [n]) (layer : ScopeId → Shape) :
    c.Repeatable [n] fun _ => (do Check.setShape n (layer (← get).currentOrRoot)) := by
  intro x c1 hrun
  simp only [runs_bind, runs_get, Check.runs_setShape] at hrun
  obtain ⟨_, _, ⟨rfl, rfl⟩, hset⟩ := hrun
  obtain ⟨hgains, hn, hx, hget⟩ := gains_setShape h hset
  refine ⟨hgains, fun _ c2 hlater => ?_⟩
  obtain ⟨c3, hset', hrenewed⟩ := hlater.setShape hn hx hget (.same _)
  refine ⟨c3, ?_, hrenewed⟩
  simp only [runs_bind, runs_get, Check.runs_setShape]
  exact ⟨c2, c2, ⟨rfl, rfl⟩, by rw [hlater.currentOrRoot, hgains.toLater.currentOrRoot, hset']⟩

/-- A function without a result: each time another slot stands for the result. -/
lemma repeatable_setFunction (h : c.Blank [n]) (ps : List (String × Slot)) :
    c.Repeatable [n] fun _ => (do Check.setShape n (.function (← Check.alloc .void) ps)) := by
  intro x c1 hrun
  simp only [runs_bind, Check.runs_alloc, Check.runs_setShape] at hrun
  obtain ⟨r, c', halloc, hset⟩ := hrun
  obtain ⟨rfl, rfl⟩ := Prod.mk.inj halloc
  have hgains : c.Gains [] (c.alloc .void).2 := (c.renewed_alloc .void).gains
  obtain ⟨hgains', hn, hx, hget⟩ := gains_setShape (h.of_gains_nil hgains) hset
  refine ⟨hgains.trans hgains', fun _ c2 hlater => ?_⟩
  -- the slot that stood for the result the first time still holds no type
  have hlater' := hlater.trans (c2.renewed_alloc .void).toLater
  have hvoid := (hgains'.toLater.trans hlater').types.void (c.get_alloc_self .void)
  obtain ⟨c3, hset', hrenewed⟩ := hlater'.setShape hn hx hget
    (.result hvoid (c2.get_alloc_self .void))
  refine ⟨c3, ?_, (c2.renewed_alloc .void).trans hrenewed⟩
  simp only [runs_bind, Check.runs_alloc, Check.runs_setShape]
  exact ⟨_, _, rfl, hset'⟩

/-- The slot of a declaration is there from the first time on. -/
lemma repeatable_slotOf {d : NodeId} (h : c.DeclaresType d) :
    c.Repeatable [] fun _ => Check.slotOf d := by
  intro x c1 hrun
  have hslot := Check.runs_slotOf.mp hrun
  refine ⟨?_, fun _ c2 hlater => ⟨c2, ?_, .refl c2⟩⟩
  · rcases hd : c.nodeType? d with _ | y
    · rw [slotOf_of_none hd] at hslot
      obtain ⟨rfl, rfl⟩ := Prod.mk.inj hslot
      have hgains := gains_insert (x := c.types.size) hd (.alloc _ .unknown)
      refine ⟨hgains.toLater, fun m _ hm => hgains.outside m (fun hmem => ?_) hm⟩
      exact hm (List.mem_singleton.mp hmem ▸ h)
    · rw [slotOf_of_some hd] at hslot
      obtain ⟨rfl, rfl⟩ := Prod.mk.inj hslot
      exact (Renewed.refl c).gains
  · have hd := hlater.nodeTypes d x (nodeType?_of_slotOf hslot)
    exact Check.runs_slotOf.mpr (slotOf_of_some hd)

/-- A node shares a slot; where it already does, nothing is copied. -/
lemma repeatable_bindNode (h : c.Blank [n]) (y : Slot) :
    c.Repeatable [n] fun _ => Check.bind n y := by
  intro x c1 hrun
  have hnone := h.untyped n List.mem_cons_self
  have hbind := Check.runs_bindNode.mp hrun
  have hn := nodeType?_of_bind hbind
  rw [bind_of_none hnone] at hbind
  obtain ⟨rfl, rfl⟩ := Prod.mk.inj hbind
  refine ⟨gains_insert hnone (.refl _),
    fun _ c2 hlater => ⟨c2, Check.runs_bindNode.mpr ?_, .refl c2⟩⟩
  rw [bind_of_some (hlater.nodeTypes n _ hn), Context.assign, TypeStore.assign, if_pos rfl]

end Context

/-! ### Annotations are resolved again -/

namespace TypeExpr

open Context

variable {c c1 : Context}

/-- A name that is declared stands for the same declaration again. -/
lemma repeatable_resolveDeclared {node : Node} (h : c.Blank [node.id]) (name : String) (k : Nat) :
    c.Repeatable [node.id] fun tolerance => resolveDeclared tolerance node name k := by
  intro x c2 hrun
  obtain ⟨d, y, c1, hd, rfl, hslot, hbind⟩ | ⟨-, hstrict, -⟩ := runs_resolveDeclared.mp hrun
  · have hstep := (repeatable_slotOf (declaresType_of_declarationOf? hd)).bind fun y _ hgains =>
      repeatable_bindNode (h.of_gains_nil hgains) y
    simp only [Repeatable, runs_bind, Check.runs_slotOf, Check.runs_bindNode] at hstep
    obtain ⟨hgains, hagain⟩ := hstep x c2 ⟨y, c1, hslot, hbind⟩
    refine ⟨hgains, fun tolerance c3 hlater => ?_⟩
    obtain ⟨c4, ⟨y', c', hslot', hbind'⟩, hrenewed⟩ := hagain tolerance c3 hlater
    have hd' := ((hgains.toLater.trans hlater).declarationOf? name).trans hd
    exact ⟨c4, runs_resolveDeclared.mpr (.inl ⟨d, y', c', hd', rfl, hslot', hbind'⟩), hrenewed⟩
  · cases hstrict

mutual

/-- **An annotation is resolved again to what it was resolved to.** -/
lemma repeatable_resolve : ∀ {type : TypeExpr} {c : Context}, c.Blank type.nodes →
    c.Repeatable type.nodes fun tolerance => resolve tolerance type
  | .named node name arguments, c, h => by
    unfold resolve
    rcases hs : (if arguments.isEmpty then Shape.builtin? name.name else none) with _ | shape
    · by_cases hk : isConstructor name.name = true
      · simp only [if_pos hk]
        rcases arguments with _ | ⟨argument, _ | ⟨second, rest⟩⟩
        · exact .fail _ _
        · simp only [nodes, nodesAll, List.append_nil] at h ⊢
          exact .parent h repeatable_resolve fun s _ h =>
            repeatable_setShape h fun _ => .generic name.name [s]
        · exact .fail _ _
      · simp only [if_neg hk]
        exact (repeatable_resolveDeclared h.head name.name _).mono (by simp [nodes])
    · exact (repeatable_setShape h.head fun _ => shape).mono (by simp [nodes])
  | .function node parameters none, c, h => by
    unfold resolve
    simp only [nodes, List.append_nil] at h ⊢
    exact .parent h repeatable_resolveAll fun slots _ h => repeatable_setFunction h _
  | .function node parameters (some type), c, h => by
    unfold resolve
    -- the result is resolved before the function gets its type
    have hperm : (nodesAll parameters ++ node.id :: type.nodes).Perm
        (node.id :: (nodesAll parameters ++ type.nodes)) := List.perm_middle
    refine Repeatable.mono ?_ hperm.subset
    refine .append (h.perm hperm.symm) repeatable_resolveAll fun slots _ h => ?_
    exact .parent h repeatable_resolve fun r _ h => repeatable_setShape h fun _ => .function r _
  | .record node fields, c, h => by
    unfold resolve
    exact .parent h repeatable_resolveFields fun slots _ h =>
      repeatable_setShape h (.record · slots)
  | .inlineEnum node items, c, h => by
    unfold resolve
    exact .parent h repeatable_resolveItems fun slots _ h =>
      repeatable_setShape h (.inlineEnum · slots)

lemma repeatable_resolveAll : ∀ {types : List TypeExpr} {c : Context}, c.Blank (nodesAll types) →
    c.Repeatable (nodesAll types) fun tolerance => resolveAll tolerance types
  | [], c, _ => by
    unfold resolveAll
    exact .pure []
  | type :: rest, c, h => by
    unfold resolveAll
    exact .append h repeatable_resolve fun s _ h => (repeatable_resolveAll h).map (s :: ·)

lemma repeatable_resolveFields : ∀ {fields : List FieldType} {c : Context},
    c.Blank (FieldType.nodesAll fields) →
      c.Repeatable (FieldType.nodesAll fields) fun tolerance => resolveFields tolerance fields
  | [], c, _ => by
    unfold resolveFields
    exact .pure []
  | ⟨_, name, type⟩ :: rest, c, h => by
    unfold resolveFields
    exact .append h repeatable_resolve fun s _ h =>
      (repeatable_resolveFields h).map ((name.name, s) :: ·)

lemma repeatable_resolveItem : ∀ {item : EnumItem} {c : Context}, c.Blank item.nodes →
    c.Repeatable item.nodes fun tolerance => resolveItem tolerance item
  | ⟨node, name, payload⟩, c, h => by
    unfold resolveItem
    exact .parent h repeatable_resolveAll fun slots _ h =>
      repeatable_setShape h (.enumItem · name.name slots)

lemma repeatable_resolveItems : ∀ {items : List EnumItem} {c : Context},
    c.Blank (EnumItem.nodesAll items) →
      c.Repeatable (EnumItem.nodesAll items) fun tolerance => resolveItems tolerance items
  | [], c, _ => by
    unfold resolveItems
    exact .pure []
  | item :: rest, c, h => by
    unfold resolveItems
    exact .append h repeatable_resolveItem fun s _ h => (repeatable_resolveItems h).map (s :: ·)

end

/-- **Resolving an annotation again changes nothing that shows.** If its nodes were blank, it is
resolved to the same slot again, with any tolerance. The open scopes are the same ones; every node
of the context keeps its slot, or is still without one, and shows the type that it showed. -/
theorem resolve_again {type : TypeExpr} {x : Slot} (hc : c.WellFormed) (hblank : c.Blank type.nodes)
    (h : Runs (type.resolve .strict) c x c1) (tolerance : Tolerance) :
    c1.stack = c.stack ∧ ∃ c2, Runs (type.resolve tolerance) c1 x c2 ∧
      (∀ n, c2.nodeType? n = c1.nodeType? n) ∧ ∀ n, c2.displayType? n = c1.displayType? n := by
  obtain ⟨hgains, hagain⟩ := repeatable_resolve hblank x c1 h
  obtain ⟨c2, hrun, hrenewed⟩ := hagain tolerance c1 (.refl c1)
  have hc1 : c1.WellFormed :=
    ((ensures_resolve (E := fun _ => True) type hc False.elim).leads.of_value h).wellFormed
  exact ⟨hgains.stack, c2, hrun, hrenewed.nodeType?_eq, hrenewed.displayType?_eq hc1⟩

/-- `class Hen { mate: Optional<Hen> }`. -/
def henhouse : Program :=
  (StateT.run (m := Id) (do
    let type ← Draft.optionalType (← Draft.namedType "Hen" [])
    let mate ← Draft.variableDecl "mate" (some type) none
    Draft.program [.object (← Draft.classDecl "Hen" none [.var mate])] []) {}).1

/-- A function without a result, one parameter of which has a field of such a type. -/
def keeper : TypeExpr :=
  (StateT.run (m := Id) (do
    let hen ← Draft.namedType "Hen" []
    let call ← Draft.functionType [← Draft.namedType "Int" []] none
    let hens ← Draft.arrayType (← Draft.namedType "Hen" [])
    let record ← Draft.recordType [("call", call), ("hens", hens)]
    let nothing ← Draft.enumItem "None" []
    let laid ← Draft.enumItem "Laid" [← Draft.namedType "Hen" []]
    let choice ← Draft.inlineEnumType [nothing, laid]
    Draft.functionType [hen, record, choice] none) { nextId := 100 }).1

/-- The class is known, and the scope of the program is open. -/
def opened : Context :=
  ((Op.reopenScope henhouse.id henhouse.location).run.outcome
    ((Pass.runAll [.collect .fresh]).outcome { program := henhouse }).2.context).2

theorem resolve_again_keeper : opened.WellFormed ∧ opened.Blank keeper.nodes ∧
    ∃ x c1, Runs (keeper.resolve .strict) opened x c1 ∧
      c1.displayType? keeper.node.id =
        some ("(Hen, \x7bcall: (Int) -> Void, hens: Array<Hen>\x7d, " ++
        "enum \x7b None, Laid(Hen) \x7d) -> Void") ∧
      c1.stack = opened.stack ∧ ∃ c2, Runs (keeper.resolve .lenient) c1 x c2 ∧
        (∀ n, c2.nodeType? n = c1.nodeType? n) ∧ ∀ n, c2.displayType? n = c1.displayType? n := by
  have hcollected : ∀ r, (Pass.runAll [.collect .fresh]).outcome { program := henhouse } = r →
      Steps {} r.2.context := by
    rintro _ rfl
    exact (Pass.ensures_runAll _ (a := { program := henhouse }) .empty).state.steps
  have hsteps : Steps {} opened :=
    (hcollected _ rfl).tail ⟨.reopenScope henhouse.id henhouse.location, trivial, by rw [opened]⟩
  have hc : opened.WellFormed := hsteps.wellFormed .empty
  have hblank : opened.Blank keeper.nodes :=
    ⟨by decide +kernel, by decide +kernel, by decide +kernel⟩
  have hrun : Runs (keeper.resolve .strict) opened 12 ((keeper.resolve .strict).outcome opened).2 :=
    runs_of_toOption (by decide +kernel)
  exact ⟨hc, hblank, 12, _, hrun, by decide +kernel, resolve_again hc hblank hrun .lenient⟩

end TypeExpr

end Sema
