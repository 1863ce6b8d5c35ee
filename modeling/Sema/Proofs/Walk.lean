import Sema.Proofs.Ensures
import Sema.Proofs.Inversion
import Sema.Proofs.Keeps

/-!
What inference writes. An expected type is carried through arrays, records and operators down to
the slots that it may fill: the element slot of an array literal, and the slots of `null` and of an
enum item alone. Nothing else is written, also if inference ends in a fault, and once both operands
of an operator are known, or both are not, nothing behind the operator is written either.
-/

namespace Sema

open Sema.Action

/-! ### Sets of slots that types do not lead out of -/

/-- The set is closed under components and under base classes. -/
structure TypeStore.Region (t : TypeStore) (R : Slot → Prop) : Prop where
  closed : t.Closed R
  base : t.BaseClosed R

namespace TypeStore

variable {t t' : TypeStore} {R : Slot → Prop}

/-- A region whose contents do not change stays one. -/
lemma Region.of_eq (hR : t.Region R) (h : ∀ x, R x → t'.get x = t.get x) : t'.Region R := by
  constructor
  · intro x hx y hy
    rw [components, h x hx] at hy
    exact hR.closed x hx y hy
  · intro x hx y hy
    rw [base?, h x hx] at hy
    exact hR.base x hx y hy

end TypeStore

namespace Context

/-- Only the contents of the slots in `P` differ. -/
structure Writes (P : Slot → Prop) (c c' : Context) : Prop where
  size : c'.types.size = c.types.size
  get : ∀ x, ¬ P x → c'.types.get x = c.types.get x
  rest : c' = { c with types := c'.types }

namespace Writes

variable {P : Slot → Prop} {c c1 c2 : Context} {x : Slot}

lemma refl (c : Context) : Writes P c c := ⟨rfl, fun _ _ => rfl, rfl⟩

lemma trans (h1 : Writes P c c1) (h2 : Writes P c1 c2) : Writes P c c2 := by
  refine ⟨h2.size.trans h1.size, fun x hx => (h2.get x hx).trans (h1.get x hx), ?_⟩
  rw [h2.rest, h1.rest]

instance : IsTrans Context (Writes P) := ⟨fun _ _ _ => trans⟩

lemma assign (hx : P x) (y : Slot) : Writes P c (c.assign x y) := by
  refine ⟨c.types.size_assign x y, fun z hz => ?_, rfl⟩
  refine c.types.get_assign_of_ne ?_
  rintro rfl
  exact hz hx

lemma set (hx : P x) (shape : Shape) : Writes P c { c with types := c.types.set x shape } := by
  refine ⟨c.types.size_set x shape, fun z hz => ?_, rfl⟩
  refine c.types.get_set_of_ne shape ?_
  rintro rfl
  exact hz hx

lemma nodeType? (h : Writes P c c1) (n : NodeId) : c1.nodeType? n = c.nodeType? n := by
  rw [h.rest]
  rfl

lemma mono {Q : Slot → Prop} (h : Writes P c c1) (hQ : ∀ x, P x → Q x) : Writes Q c c1 :=
  ⟨h.size, fun x hx => h.get x fun hp => hx (hQ x hp), h.rest⟩

/-- What is apart from the slots that are written is kept. -/
lemma keeps {q : Prop} {Z : Slot → Prop} (h : Writes P c c1) (hZ : ∀ x, Z x → ¬ P x) :
    TypeStore.Keeps q Z c.types c1.types :=
  TypeStore.keeps_of_eq fun x hx => h.get x (hZ x hx)

end Writes

end Context

/-- The expressions that inference walks through or fills. -/
def Expr.isOpen : Expr → Bool
  | .array .. | .record .. | .shorthand .. | .binary .. | .literal _ .null => true
  | _ => false

/-! ### How inference runs -/

namespace Infer

variable {c c' : Context} {t : Slot} {e : Expr} {node : Node}

lemma runs_shorthand {item : String} (h : Runs (shorthand node item t) c () c') :
    ∃ x c1, c.slotOf node.id = (x, c1) ∧ c1.assign x t = c' := by
  unfold shorthand at h
  simp only [runs_bind, Check.runs_types] at h
  obtain ⟨_, _, ⟨rfl, rfl⟩, h⟩ := h
  split at h
  · split at h
    · simpa using h
    · simp at h
  · split at h
    · simpa using h
    · simp at h
  · simp at h

lemma runs_array {elements : List Expr} {x y : Slot} (hx : c.nodeType? node.id = some x)
    (hy : c.types.get x = .generic Shape.arrayName [y])
    (h : Runs (expr t (.array node elements)) c () c') :
    ∃ w c1, c.types.arrayElement? (c.types.unwrapped t) = some w ∧
      Runs (exprs w elements) c () c1 ∧
        (if c1.types.isIncomplete y then c1.assign y w else c1) = c' := by
  have hel : c.types.arrayElement? x = some y := by
    rw [TypeStore.arrayElement?, hy]
    rfl
  simp only [expr, runs_bind, Check.runs_types, Check.runs_slotOf] at h
  obtain ⟨_, _, ⟨rfl, rfl⟩, _, _, heq, _, _, ⟨rfl, rfl⟩, h⟩ := h
  rw [Context.slotOf_of_some hx] at heq
  cases heq
  rw [hel] at h
  dsimp only at h
  split at h
  · simp at h
  · next w hw =>
    simp only [runs_bind, Check.runs_types] at h
    obtain ⟨_, c1, hes, _, _, ⟨rfl, rfl⟩, h⟩ := h
    refine ⟨w, c1, hw, hes, ?_⟩
    split at h
    · next hi =>
      rw [if_pos hi]
      simpa using h
    · next hi =>
      rw [if_neg hi]
      simpa using h

lemma runs_record {values : List FieldValue} (h : Runs (expr t (.record node values)) c () c') :
    ∃ sc types, c.types.get (c.types.unwrapped t) = .record sc types ∧
      Runs (fields (c.types.unwrapped t) types values) c () c' := by
  simp only [expr, runs_bind, Check.runs_types] at h
  obtain ⟨_, _, ⟨rfl, rfl⟩, h⟩ := h
  split at h
  · next sc types hw => exact ⟨sc, types, hw, h⟩
  · simp at h

lemma runs_fields_cons {name : Ident} {value : Expr} {rest : List FieldValue}
    {types : List (String × Slot)}
    (h : Runs (fields t types (⟨node, name, value⟩ :: rest)) c () c') :
    ∃ w c1, types.lookup name.name = some w ∧ Runs (expr w value) c () c1 ∧
      Runs (fields t types rest) c1 () c' := by
  unfold fields at h
  split at h
  · next w hw =>
    simp only [runs_bind] at h
    obtain ⟨_, c1, hv, hrest⟩ := h
    exact ⟨w, c1, hw, hv, hrest⟩
  · simp [Check.display] at h

lemma runs_exprs_cons {rest : List Expr} : Runs (exprs t (e :: rest)) c () c' ↔
      ∃ c1, Runs (expr t e) c () c1 ∧ Runs (exprs t rest) c1 () c' := by
  simp only [exprs, runs_bind]
  constructor
  · rintro ⟨_, c1, h⟩
    exact ⟨c1, h⟩
  · rintro ⟨c1, h⟩
    exact ⟨(), c1, h⟩

lemma expr_of_still (he : e.isOpen = false) : expr t e = pure () := by
  rcases e with ⟨_, _ | _ | _ | _ | _⟩ | _ | _ | _ | _ | _ | _ | _ | _ | _ | _ | _ | _ <;>
    first | rfl | cases he

lemma runs_still (he : e.isOpen = false) (h : Runs (expr t e) c () c') : c' = c := by
  rw [expr_of_still he, runs_pure] at h
  exact h.2.symm

end Infer

/-! ### Where inference writes -/

/-- Reading the slot of a node that has one. -/
lemma Check.ensures_slot {R : Context → Context → Prop} {E : Cause → Prop} {c : Context} {β : Type}
    {Q : β → Context → Prop} {n : NodeId} {x : Slot}
    {f : [Access] → Slot → Check β} (hx : c.nodeType? n = some x) (h : Ensures R E (f x) c Q) :
    Ensures R E (slotOf n >>= f) c Q := by
  have hslot : (slotOf n).outcome c = (.ok x, c) := by
    simp only [slotOf, outcome_modifyGet, Context.slotOf_of_some hx]
  exact .of_outcome (fun _ => by rw [outcome_bind, hslot]) h fun _ h' => h'

namespace Infer

variable {c : Context} {t : Slot} {P : Slot → Prop} {node : Node} {x : Slot}

/-- The step writes into slots in `P` only, whether it ends well or not. -/
abbrev WritesIn (P : Slot → Prop) (x : Check Unit) (c : Context) : Prop :=
  Ensures (Context.Writes P) (fun _ => True) x c fun _ _ => True

lemma writesIn_pure : WritesIn P (pure ()) c := .pure (.refl c) trivial

lemma writesIn_fail {cause : Cause} {l : Location} : WritesIn P (fail cause l) c :=
  .fail (.refl c) trivial

lemma writesIn_assign (hP : P x) : WritesIn P (Check.assign x t) c :=
  .of_runs (fun _ => rfl) (.assign hP t) trivial

lemma writesIn_slot {n : NodeId} (hx : c.nodeType? n = some x) (hP : P x) :
    WritesIn P (do let s ← Check.slotOf n; Check.assign s t) c :=
  Check.ensures_slot hx (writesIn_assign hP)

lemma writesIn_shorthand {item : String} (hx : c.nodeType? node.id = some x)
    (hP : P x) : WritesIn P (shorthand node item t) c := by
  refine Check.ensures_types ?_
  split
  · split
    · exact writesIn_slot hx hP
    · exact writesIn_fail
  · split
    · exact writesIn_slot hx hP
    · exact writesIn_fail
  · exact writesIn_fail

/-- An operator passes the type of one operand on to the other, if only that is still deferred. -/
lemma writesIn_binary {op : BinaryOp} {left right : Expr} {y : Slot}
    (hx : c.nodeType? left.node.id = some x) (hy : c.nodeType? right.node.id = some y)
    (hl : c.types.hasDeferred x = true → c.types.hasDeferred y = false →
      WritesIn P (expr y left) c)
    (hr : c.types.hasDeferred x = false → c.types.hasDeferred y = true →
      WritesIn P (expr x right) c) : WritesIn P (expr t (.binary node op left right)) c := by
  unfold expr
  refine Check.ensures_slot hx (Check.ensures_slot hy (Check.ensures_types ?_))
  split
  · next h1 h2 => exact hl h1 h2
  · next h1 h2 => exact hr h1 h2
  · exact writesIn_pure

/-- Elements are filled one after the other, as long as each of them stays as it has to be. -/
lemma writesIn_exprs {elements : List Expr}
    (ih : ∀ e ∈ elements, ∀ {c1 t}, Context.Writes P c c1 → WritesIn P (expr t e) c1) :
    ∀ {es : List Expr} {c1 : Context}, (∀ e ∈ es, e ∈ elements) → Context.Writes P c c1 →
      WritesIn P (exprs t es) c1 := by
  intro es
  induction es with
  | nil => exact fun _ _ => writesIn_pure
  | cons e es ihes =>
    intro c1 hmem hw
    obtain ⟨hmem1, hmem2⟩ := List.forall_mem_cons.mp hmem
    exact (ih e hmem1 hw).bind fun _ c2 hw2 _ => ihes hmem2 (hw.trans hw2)

/-- A field that the expected record does not have ends the walk. -/
lemma writesIn_fields {values : List FieldValue} {types : List (String × Slot)}
    (ih : ∀ f ∈ values, ∀ {c1 t}, Context.Writes P c c1 → WritesIn P (expr t f.value) c1) :
    ∀ {vs : List FieldValue} {c1 : Context}, (∀ f ∈ vs, f ∈ values) → Context.Writes P c c1 →
      WritesIn P (fields t types vs) c1 := by
  intro vs
  induction vs with
  | nil => exact fun _ _ => writesIn_pure
  | cons f vs ihvs =>
    obtain ⟨node, name, value⟩ := f
    intro c1 hmem hw
    obtain ⟨hmem1, hmem2⟩ := List.forall_mem_cons.mp hmem
    unfold fields
    split
    · exact (ih _ hmem1 hw).bind fun _ c2 hw2 _ => ihvs hmem2 (hw.trans hw2)
    · refine .bind (Q := fun _ _ => True) (.of_runs (fun _ => rfl) (.refl _) trivial)
        fun _ _ _ _ => ?_
      exact (Ensures.fail (Q := fun _ _ => False) (.refl _) trivial).bind fun _ _ _ h => h.elim

end Infer

/-! ### Expressions that are ready for inference -/

/-- The slots of an expression are as inference needs them: those it may fill are in `P`, the
others that it looks at are in `Z`. Where it does not come to an expression, and at records and
operators, `ok` holds of the expression. Nothing has to be known about the operands of an operator
if `loose` holds. -/
inductive Laid (c : Context) (Z P : Slot → Prop) (loose : Prop) (ok : Expr → Prop) : Expr → Prop
  | still {e : Expr} (he : e.isOpen = false) (hok : ok e) : Laid c Z P loose ok e
  | null {node : Node} {x : Slot} (hx : c.nodeType? node.id = some x) (hP : P x) :
      Laid c Z P loose ok (.literal node .null)
  | shorthand {node : Node} {item : Ident} {x : Slot} (hx : c.nodeType? node.id = some x)
      (hP : P x) : Laid c Z P loose ok (.shorthand node item)
  /-- The type of the elements may be filled, or it is known. -/
  | array {node : Node} {elements : List Expr} {x y : Slot} (hx : c.nodeType? node.id = some x)
      (hZ : Z x) (hy : c.types.get x = .generic Shape.arrayName [y])
      (hP : P y ∨ c.types.isIncomplete y = false ∧
        ∃ R : Slot → Prop, c.types.Region R ∧ (∀ z, R z → Z z) ∧ R y)
      (helements : ∀ e ∈ elements, Laid c Z P loose ok e) : Laid c Z P loose ok
        (.array node elements)
  | record {node : Node} {values : List FieldValue} (hok : ok (.record node values))
      (hvalues : ∀ f ∈ values, Laid c Z P loose ok f.value) : Laid c Z P loose ok
        (.record node values)
  | binary {node : Node} {op : BinaryOp} {left right : Expr} {x y : Slot} (hloose : loose)
      (hx : c.nodeType? left.node.id = some x) (hy : c.nodeType? right.node.id = some y)
      (hok : ok (.binary node op left right)) (hleft : Laid c Z P loose ok left)
      (hright : Laid c Z P loose ok right) : Laid c Z P loose ok (.binary node op left right)
  /-- Nothing is deferred in the right operand. -/
  | left {node : Node} {op : BinaryOp} {left right : Expr} {x y : Slot} {R : Slot → Prop}
      (hx : c.nodeType? left.node.id = some x) (hy : c.nodeType? right.node.id = some y)
      (hR : c.types.Region R) (hZ : ∀ z, R z → Z z) (hyR : R y)
      (hdeferred : c.types.hasDeferred y = false) (hok : ok (.binary node op left right))
      (hleft : Laid c Z P loose ok left) : Laid c Z P loose ok (.binary node op left right)
  | right {node : Node} {op : BinaryOp} {left right : Expr} {x y : Slot} {R : Slot → Prop}
      (hx : c.nodeType? left.node.id = some x) (hy : c.nodeType? right.node.id = some y)
      (hR : c.types.Region R) (hZ : ∀ z, R z → Z z) (hxR : R x)
      (hdeferred : c.types.hasDeferred x = false) (hok : ok (.binary node op left right))
      (hright : Laid c Z P loose ok right) : Laid c Z P loose ok (.binary node op left right)
  /-- Something is deferred in both operands, or in none. -/
  | even {node : Node} {op : BinaryOp} {left right : Expr} {x y : Slot} {R : Slot → Prop}
      (hx : c.nodeType? left.node.id = some x) (hy : c.nodeType? right.node.id = some y)
      (hR : c.types.Region R) (hZ : ∀ z, R z → Z z) (hxR : R x) (hyR : R y)
      (hdeferred : c.types.hasDeferred x = c.types.hasDeferred y)
      (hok : ok (.binary node op left right)) : Laid c Z P loose ok (.binary node op left right)

namespace Laid

variable {c c1 c' : Context} {Z Z' P P' : Slot → Prop} {loose : Prop} {ok ok' : Expr → Prop}
  {e : Expr}

/-- An expression stays ready as long as what inference looks at stays what it is. -/
lemma frame {q : Prop} (h : Laid c Z P loose ok e) (hk : TypeStore.Keeps q Z c.types c'.types)
    (hn : ∀ n x, c.nodeType? n = some x → c'.nodeType? n = some x) (hZ : ∀ x, Z x → Z' x)
    (hregion : ∀ R, c.types.Region R → (∀ z, R z → Z z) →
      ∃ R', c'.types.Region R' ∧ (∀ z, R z → R' z) ∧ ∀ z, R' z → Z' z)
    (hP : ∀ x, P x → P' x) (hok : ∀ e, ok e → ok' e) : Laid c' Z' P' loose ok' e := by
  have hdef : ∀ {R : Slot → Prop} {x}, c.types.Region R → (∀ z, R z → Z z) → R x →
      c'.types.hasDeferred x = c.types.hasDeferred x :=
    fun hR hRZ hx => (hk.mono hRZ).hasDeferred hR.closed hx
  induction h with
  | still he h => exact .still he (hok _ h)
  | null hx hp => exact .null (hn _ _ hx) (hP _ hp)
  | shorthand hx hp => exact .shorthand (hn _ _ hx) (hP _ hp)
  | array hx hz hy hp _ ih =>
    have halike := hk _ hz
    rw [hy] at halike
    refine .array (hn _ _ hx) (hZ _ hz) (halike.inv (.inr rfl)) ?_ ih
    refine hp.imp (hP _) fun ⟨hi, R, hR, hRZ, hyR⟩ => ?_
    obtain ⟨R', hR', hsub, hRZ'⟩ := hregion _ hR hRZ
    exact ⟨((hk.mono hRZ).isIncomplete hR.closed hyR).trans hi, R', hR', hRZ', hsub _ hyR⟩
  | record h _ ih => exact .record (hok _ h) ih
  | binary hl hx hy h _ _ ihl ihr => exact .binary hl (hn _ _ hx) (hn _ _ hy) (hok _ h) ihl ihr
  | left hx hy hR hRZ hyR hd h _ ih =>
    obtain ⟨R', hR', hsub, hRZ'⟩ := hregion _ hR hRZ
    exact .left (hn _ _ hx) (hn _ _ hy) hR' hRZ' (hsub _ hyR) ((hdef hR hRZ hyR).trans hd)
      (hok _ h) ih
  | right hx hy hR hRZ hxR hd h _ ih =>
    obtain ⟨R', hR', hsub, hRZ'⟩ := hregion _ hR hRZ
    exact .right (hn _ _ hx) (hn _ _ hy) hR' hRZ' (hsub _ hxR) ((hdef hR hRZ hxR).trans hd)
      (hok _ h) ih
  | even hx hy hR hRZ hxR hyR hd h =>
    obtain ⟨R', hR', hsub, hRZ'⟩ := hregion _ hR hRZ
    refine .even (hn _ _ hx) (hn _ _ hy) hR' hRZ' (hsub _ hxR) (hsub _ hyR) ?_ (hok _ h)
    rw [hdef hR hRZ hxR, hdef hR hRZ hyR, hd]

/-- The same where nothing that inference looks at changes at all. -/
lemma frame_eq (h : Laid c Z P loose ok e) (hk : ∀ x, Z x → c'.types.get x = c.types.get x)
    (hn : ∀ n x, c.nodeType? n = some x → c'.nodeType? n = some x) (hZ : ∀ x, Z x → Z' x)
    (hP : ∀ x, P x → P' x) (hok : ∀ e, ok e → ok' e) : Laid c' Z' P' loose ok' e := by
  refine h.frame (TypeStore.keeps_of_eq (q := True) hk) hn hZ (fun R hR hRZ => ?_) hP hok
  exact ⟨R, hR.of_eq fun x hx => hk x (hRZ x hx), fun _ h => h, fun z hz => hZ z (hRZ z hz)⟩

open Infer in
/-- **Inference writes only into `P`**, also if it ends in a fault. -/
theorem writesIn (h : Laid c Z P loose ok e) (hZP : ∀ x, Z x → ¬ P x) :
    ∀ {c1 : Context} {t : Slot}, Context.Writes P c c1 → WritesIn P (Infer.expr t e) c1 := by
  have hdef : ∀ {R : Slot → Prop} {x c1}, c.types.Region R → (∀ z, R z → Z z) → R x →
      Context.Writes P c c1 → c1.types.hasDeferred x = c.types.hasDeferred x :=
    fun hR hRZ hx hw => (hw.keeps (q := True) fun z hz => hZP z (hRZ z hz)).hasDeferred hR.closed hx
  induction h with
  | still he _ =>
    intro c1 t _
    rw [expr_of_still he]
    exact writesIn_pure
  | null hx hp =>
    intro c1 t hw
    exact writesIn_slot ((hw.nodeType? _).trans hx) hp
  | shorthand hx hp =>
    intro c1 t hw
    exact Check.ensures_types (writesIn_shorthand ((hw.nodeType? _).trans hx) hp)
  | @array node elements x y hx hz hy hp _ ih =>
    intro c1 t hw
    have hget : c1.types.arrayElement? x = some y := by
      rw [TypeStore.arrayElement?, hw.get x (hZP x hz), hy]
      rfl
    unfold expr
    refine Check.ensures_types (Check.ensures_slot ((hw.nodeType? _).trans hx)
      (Check.ensures_types ?_))
    rw [hget]
    dsimp only
    split
    · exact writesIn_fail
    · next w _ =>
      refine (writesIn_exprs ih (fun _ h => h) hw).bind fun _ c2 hw2 _ => Check.ensures_types ?_
      split
      · next hi =>
        rcases hp with hp | ⟨hknown, R, hR, hRZ, hyR⟩
        · exact writesIn_assign hp
        · have hkeeps := (hw.trans hw2).keeps (q := True) fun z hz => hZP z (hRZ z hz)
          rw [hkeeps.isIncomplete hR.closed hyR, hknown] at hi
          cases hi
      · exact writesIn_pure
  | record _ _ ih =>
    intro c1 t hw
    unfold expr
    refine Check.ensures_types ?_
    dsimp only
    split
    · exact writesIn_fields ih (fun _ h => h) hw
    · exact writesIn_fail
  | binary _ hx hy _ _ _ ihl ihr =>
    intro c1 t hw
    exact writesIn_binary ((hw.nodeType? _).trans hx) ((hw.nodeType? _).trans hy)
      (fun _ _ => ihl hw) fun _ _ => ihr hw
  | left hx hy hR hRZ hyR hd _ _ ih =>
    intro c1 t hw
    refine writesIn_binary ((hw.nodeType? _).trans hx) ((hw.nodeType? _).trans hy)
      (fun _ _ => ih hw) fun _ hd' => ?_
    rw [hdef hR hRZ hyR hw, hd] at hd'
    cases hd'
  | right hx hy hR hRZ hxR hd _ _ ih =>
    intro c1 t hw
    refine writesIn_binary ((hw.nodeType? _).trans hx) ((hw.nodeType? _).trans hy)
      (fun hd' _ => ?_) fun _ _ => ih hw
    rw [hdef hR hRZ hxR hw, hd] at hd'
    cases hd'
  | even hx hy hR hRZ hxR hyR hd _ =>
    intro c1 t hw
    have hd1 : c1.types.hasDeferred _ = c1.types.hasDeferred _ :=
      (hdef hR hRZ hxR hw).trans (hd.trans (hdef hR hRZ hyR hw).symm)
    refine writesIn_binary ((hw.nodeType? _).trans hx) ((hw.nodeType? _).trans hy)
      (fun hl hr => ?_) fun hl hr => ?_
    · rw [hl, hr] at hd1
      cases hd1
    · rw [hl, hr] at hd1
      cases hd1

/-- The same for a walk that ends well. -/
lemma writes (h : Laid c Z P loose ok e) (hZP : ∀ x, Z x → ¬ P x) {t : Slot}
    (hr : Runs (Infer.expr t e) c () c') : Context.Writes P c c' :=
  (h.writesIn hZP (.refl c)).of_value hr

end Laid

end Sema
