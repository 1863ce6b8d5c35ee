import Sema.Proofs.Faults
import Sema.Proofs.Lawful

/-!
What is settled during the walk over variables and bodies. A slot may still change in three ways.
That of a variable without annotation holds a guess until the variable has been resolved; slots that
inference has still to fill, and that of a local variable under way, are reserved; and an annotated
variable has its annotation resolved once more, which gives the same type again. What leads neither
to a guess nor to a reserved slot is settled: it holds what it will hold in the end, and whatever is
checked of it holds in the end as well.
-/

namespace Sema

open Sema.Action Context

/-! ### What a slot leads to -/

/-- The slots that a shape leads to: what it is made of, and the base class of a class. -/
def Shape.leads (shape : Shape) : List Slot :=
  shape.components ++ shape.base?.toList

lemma Shape.leads_of_plain {shape : Shape} (h : shape.nominalName? = none) :
    shape.leads = shape.components := by
  rw [leads, base?_eq_none h]
  exact List.append_nil _

lemma Alike.mem_leads {t t' : TypeStore} {a b : Shape} {y : Slot} (h : Alike True t t' a b)
    (hy : y ∈ b.leads) : y ∈ a.leads ∨ t'.get y = .void ∧ ∃ ps, b = .function y ps := by
  cases h with
  | same h =>
    have hu : ∀ s : Shape, s.unscoped.leads = s.leads := fun s => by cases s <;> rfl
    rw [← hu, ← h, hu] at hy
    exact .inl hy
  | result hr hr' =>
    rcases List.mem_cons.mp hy with rfl | hy
    · exact .inr ⟨hr', _, rfl⟩
    · exact .inl (List.mem_cons_of_mem _ hy)
  | renamed hq => exact absurd trivial hq

namespace TypeStore

variable {t : TypeStore} {R : Slot → Prop} {x y : Slot}

/-- A set of slots that only lead to each other. -/
lemma region_of_leads (h : ∀ x, R x → ∀ y ∈ (t.get x).leads, R y) : t.Region R :=
  ⟨fun x hx y hy => h x hx y (List.mem_append_left _ hy), fun x hx y hy =>
    h x hx y (List.mem_append_right _ (Option.mem_toList.mpr hy))⟩

lemma Region.leads (h : t.Region R) (hx : R x) (hy : y ∈ (t.get x).leads) : R y := by
  rcases List.mem_append.mp hy with hy | hy
  · exact h.closed x hx y hy
  · exact h.base x hx y (Option.mem_toList.mp hy)

end TypeStore

/-! ### Types that are resolved twice -/

/-- **A type that is resolved twice** is the same type both times. -/
lemma Layer.Holds.alike {L : List (NodeId × Tag)} {c c' : Context} {n n' : NodeId} {x : Slot}
    {layer : Layer} (hw : layer.isWritten false = true) (hu : Unambiguous L)
    (hn : ∀ n x, c.nodeType? n = some x → c'.nodeType? n = some x)
    (htype : ∀ name y, TypeSlot L c name y → c'.types.get y = c.types.get y)
    (hkeys : ∀ n ∈ L.map Prod.fst, c'.nodeType? n = c.nodeType? n)
    (h : layer.Holds L c n x) (h' : layer.Holds L c' n' x) :
    Alike True c.types c'.types (c.types.get x) (c'.types.get x) := by
  cases layer with
  | leaf shape => exact .of_eq (h'.1.trans h.1.symm)
  | name early s =>
    -- both times the slot holds what the class or enum of the name holds
    have hnamed : ∀ {c : Context} {n : NodeId}, (Layer.name early s).Holds L c n x →
        ∃ y, TypeSlot L c s y ∧ c.types.get x = c.types.get y := by
      rintro c n (hx | ⟨-, y, hy, -, hstays⟩)
      · exact ⟨x, hx, rfl⟩
      · exact ⟨y, hy, hstays.eq hu⟩
    obtain ⟨y, hy, hget⟩ := hnamed h
    obtain ⟨y', ⟨d', hd', hdy'⟩, hget'⟩ := hnamed h'
    obtain ⟨d, hd, hdy⟩ := hy
    obtain rfl : d' = d := hu s d' d hd' hd
    obtain rfl : y = y' :=
      Option.some.inj (hdy.symm.trans ((hkeys _ (mem_keys hd)).symm.trans hdy'))
    exact .of_eq (hget'.trans ((htype s y ⟨_, hd, hdy⟩).trans hget.symm))
  | generic s m =>
    obtain ⟨y, hy, hget⟩ := h
    obtain ⟨y', hy', hget'⟩ := h'
    obtain rfl : y' = y := Option.some.inj (hy'.symm.trans (hn m y hy))
    exact .of_eq (hget'.trans hget.symm)
  | function result ps =>
    obtain ⟨r, slots, hr, hslots, hget⟩ := h
    obtain ⟨r', slots', hr', hslots', hget'⟩ := h'
    obtain rfl := (hslots.mono hn).unique hslots'
    rw [hget, hget']
    cases result with
    | some m =>
      obtain rfl : r' = r := Option.some.inj (hr'.symm.trans (hn m r hr))
      exact .of_eq rfl
    | none => exact .result hr.1 hr'.1
  | record | enumItem | inlineEnum =>
    obtain ⟨scope, slots, hslots, hget⟩ := h
    obtain ⟨scope', slots', hslots', hget'⟩ := h'
    obtain rfl := (hslots.mono hn).unique hslots'
    rw [hget, hget']
    exact .same rfl
  | copy | object | enum => cases hw

namespace Setting

open Resolving

variable {G : Setting} {s s' : Resolving} {n : NodeId} {x : Slot} {v w : VariableDecl}

lemma variable_tag (hv : v ∈ G.program.variables) : (v.id, Tag.variable) ∈ G.program.layout :=
  G.groundwork.tags v hv _ List.mem_cons_self

/-- Of all nodes of signatures only the variable itself holds its slot. -/
lemma eq_of_slot (hv : v ∈ G.program.variables) (hx : G.start.nodeType? v.id = some x)
    (hn : G.start.nodeType? n = some x) : n = v.id :=
  G.groundwork.arranged.private_own (.inr (variable_tag hv)) hx
    (G.starts.orderly.typed n x hn).1 hn

/-- The slots of an annotated variable hold the same type before and after the variable has been
resolved. -/
lemma alike_of_lettered (hs : Footing G.groundwork s) (hs' : Footing G.groundwork s')
    (hn : ∀ n x, s.nodeType? n = some x → s'.nodeType? n = some x)
    (hl : Lettered G.groundwork s) (hl' : Lettered G.groundwork s') (hv : v ∈ G.program.variables)
    {type : TypeExpr} (htype : v.type = some type) (hm : n ∈ v.id :: type.nodes)
    (hx : s.nodeType? n = some x) :
    Alike True s.types s'.types (s.types.get x) (s'.types.get x) := by
  have hsigned : ∀ {t : Resolving}, Lettered G.groundwork t →
      Signed G.program.layout ((v.id, .copy false type.node.id) :: type.layers false)
        t.toContext := by
    intro t ht
    have hsigned := ht v hv
    rwa [show (Decl.var v).annotated = _ from by rw [Decl.annotated, htype]] at hsigned
  have hparts : ∀ p ∈ type.layers false, ∀ y, s.nodeType? p.1 = some y →
      Alike True s.types s'.types (s.types.get y) (s'.types.get y) := by
    intro p hp y hy
    obtain ⟨_, hz, -, hholds⟩ := hsigned hl p (List.mem_cons_of_mem _ hp)
    obtain ⟨_, hz', -, hholds'⟩ := hsigned hl' p (List.mem_cons_of_mem _ hp)
    cases hz.symm.trans hy
    cases hz'.symm.trans (hn _ _ hy)
    refine hholds.alike (TypeExpr.isWritten_layers false p hp) G.distinct.unambiguous hn
      (fun name y hy => ?_) (fun n hn => (hs'.nodes n hn).trans (hs.nodes n hn).symm) hholds'
    have hstart := hs.typeSlot_iff.mp hy
    have hu := G.distinct.unambiguous
    rw [hs.type_kept trivial hu hstart, hs'.type_kept trivial hu hstart]
  rcases List.mem_cons.mp hm with rfl | hm
  · -- the variable has a copy of its annotation
    obtain ⟨_, hz, -, y, hy, -, hstays⟩ := hsigned hl _ List.mem_cons_self
    obtain ⟨_, hz', -, y', hy', -, hstays'⟩ := hsigned hl' _ List.mem_cons_self
    cases hz.symm.trans hx
    cases hz'.symm.trans (hn _ _ hx)
    cases hy'.symm.trans (hn _ _ hy)
    have hu := G.distinct.unambiguous
    rw [hstays.eq ⟨hu, rfl⟩, hstays'.eq ⟨hu, rfl⟩]
    exact hparts _ (type.head_mem false) _ hy
  · rw [← TypeExpr.layers_fst false] at hm
    obtain ⟨p, hp, rfl⟩ := List.mem_map.mp hm
    exact hparts p hp _ hx

end Setting

/-! ### Variables that refer to each other -/

mutual

/-- The names that an expression refers to values and members by. -/
def Expr.names : Expr → List String
  | .identifier name => [name.name]
  | .member _ object name => name.name :: object.names
  | .call _ callee arguments => callee.names ++ Expr.namesAll arguments
  | .binary _ _ left right => left.names ++ right.names
  | .unary _ _ operand => operand.names
  | .index _ source position => source.names ++ position.names
  | .assign _ target value => target.names ++ value.names
  | .array _ elements => Expr.namesAll elements
  | .record _ fields => FieldValue.namesAll fields
  | .literal .. | .self _ | .super _ | .shorthand .. => []

def Expr.namesAll : List Expr → List String
  | [] => []
  | e :: rest => e.names ++ Expr.namesAll rest

def FieldValue.namesAll : List FieldValue → List String
  | [] => []
  | ⟨_, _, value⟩ :: rest => value.names ++ FieldValue.namesAll rest

end

/-- A variable refers to another one if that has a name which occurs in its value. -/
def Program.Refers (p : Program) (v w : VariableDecl) : Prop :=
  v ∈ p.variables ∧ w ∈ p.variables ∧ ∃ e, v.value = some e ∧ w.name.name ∈ e.names

/-- A way to look at the walk. A strict one takes the slot of a variable for a guess until the
variable has been resolved, and not only until that has begun. It presupposes that no variable
without annotation is needed for its own value, and that variables are found by their names. -/
structure Outlook extends Setting where
  strict : Prop
  acyclic : strict → ∀ v ∈ program.variables, v.type = none →
    ¬ Relation.TransGen program.Refers v v
  symbols : strict → ∀ symbol, start.Declares symbol → ∀ v ∈ program.variables,
    symbol.declaration = v.id → symbol.name = v.name.name
  fields : strict → ∀ u, ∀ f ∈ (start.types.get u).fields, ∀ v ∈ program.variables,
    start.nodeType? v.id = some f.2 → f.1 = v.name.name
  owned : strict → ∀ x n, plan.ownerOfSlot.get? x = some n → start.nodeType? n = some x

namespace Outlook

open Resolving

variable {G : Outlook} {Q Q' : Slot → Prop} {s s1 s' : Resolving} {x y : Slot} {n : NodeId}
  {v w : VariableDecl} {shape : Shape} {c : Context} {ns : List NodeId} {φ ψ : Context → Prop}

/-! ### Settled slots -/

/-- The variable has still to be resolved. -/
def Pends (G : Outlook) (s : Resolving) (v : VariableDecl) : Prop :=
  v.id ∉ s.resolved ∧ (G.strict ∨ v.id ∉ s.resolving)

/-- The slot of a variable without annotation that has still to be resolved. -/
def Guessed (G : Outlook) (s : Resolving) (x : Slot) : Prop :=
  ∃ v ∈ G.program.variables, v.type = none ∧ G.Pends s v ∧ G.start.nodeType? v.id = some x

lemma Guessed.mono (h : G.Guessed s' x)
    (hp : ∀ v ∈ G.program.variables, v.type = none → G.Pends s' v → G.Pends s v) :
    G.Guessed s x := by
  obtain ⟨v, hv, htype, hpends, hx⟩ := h
  exact ⟨v, hv, htype, hp v hv htype hpends, hx⟩

lemma Guessed.lt (h : G.Guessed s x) : x < G.groundwork.size := by
  obtain ⟨v, -, -, -, hx⟩ := h
  exact (G.starts.orderly.typed _ x hx).2

lemma pends_of_advances (h : Advances G.groundwork ns s s') (hp : G.Pends s' v) : G.Pends s v :=
  ⟨fun hm => hp.1 (h.resolved _ hm), by rw [← h.resolving]; exact hp.2⟩

/-- Classes and enums are those that were there when the walk began. -/
def Original (G : Outlook) (shape : Shape) : Prop :=
  shape.nominalName? ≠ none → ∃ u, G.start.types.get u = shape

lemma Original.alike {t t' : TypeStore} {a b : Shape} (h : G.Original a)
    (hab : Alike True t t' a b) :
    G.Original b := by
  intro hb
  rw [hab.nominalName?] at hb
  obtain ⟨name, ha⟩ := Option.ne_none_iff_exists'.mp hb
  have heq : b = a := by
    rcases a.nominal_cases ha with ⟨_, _, _, rfl⟩ | ⟨_, _, rfl⟩ <;> exact hab.inv (.inl trivial)
  exact heq ▸ h hb

lemma original_of_plain (h : shape.nominalName? = none) : G.Original shape :=
  fun hn => absurd h hn

/-- The slot holds no guess and is not reserved. -/
structure Firm (G : Outlook) (Q : Slot → Prop) (s : Resolving) (x : Slot) : Prop where
  lt : x < s.types.size
  known : ¬ G.Guessed s x
  free : ¬ Q x
  original : G.Original (s.types.get x)

/-- At the beginning no slot leads to that of a variable. -/
lemma leads_start (hz : y ∈ (G.start.types.get x).leads) : y < G.groundwork.size ∧
    ∀ v ∈ G.program.variables, G.start.nodeType? v.id ≠ some y := by
  refine ⟨(G.starts.orderly.shapes x).handles y ?_, fun v hv =>
    (G.starts.orderly.shapes x).parts y hz v.id (Setting.variable_tag hv)⟩
  rcases List.mem_append.mp hz with hz | hz
  · exact List.mem_append_left _ hz
  · exact Shape.mem_handles_of_base? (Option.mem_toList.mp hz)

/-- Slots that have come up since the walk began hold no guesses. -/
lemma firm_of_high (hle : G.groundwork.size ≤ x) (hlt : x < s.types.size) (hfree : ¬ Q x)
    (horiginal : G.Original (s.types.get x)) : G.Firm Q s x :=
  ⟨hlt, fun hg => absurd hg.lt (Nat.not_lt.mpr hle), hfree, horiginal⟩

/-- The slot leads to firm slots only. -/
def Settled (G : Outlook) (Q : Slot → Prop) (s : Resolving) (x : Slot) : Prop :=
  ∃ R : Slot → Prop, s.types.Region R ∧ (∀ y, R y → G.Firm Q s y) ∧ R x

namespace Settled

lemma of_region {R : Slot → Prop} (hregion : s.types.Region R) (hR : ∀ y, R y → G.Firm Q s y)
    (hx : R x) : G.Settled Q s x :=
  ⟨R, hregion, hR, hx⟩

lemma firm (h : G.Settled Q s x) : G.Firm Q s x := by
  obtain ⟨R, -, hR, hx⟩ := h
  exact hR x hx

lemma leads (h : G.Settled Q s x) : ∀ y ∈ (s.types.get x).leads, G.Settled Q s y := by
  obtain ⟨R, hregion, hR, hx⟩ := h
  exact fun y hy => ⟨R, hregion, hR, hregion.leads hx hy⟩

end Settled

lemma region_settled (G : Outlook) (Q : Slot → Prop) (s : Resolving) :
    s.types.Region (G.Settled Q s) :=
  TypeStore.region_of_leads fun _ hx => hx.leads

/-- What is settled in one state is settled in another if what it leads to there is. -/
lemma Settled.transfer (hfirm : ∀ x, G.Settled Q s x → G.Firm Q' s' x)
    (hleads : ∀ x, G.Settled Q s x → G.Settled Q' s' x ∨
      ∀ y ∈ (s'.types.get x).leads, G.Settled Q s y ∨ G.Settled Q' s' y)
    (h : G.Settled Q s x) : G.Settled Q' s' x := by
  refine of_region (R := fun x => G.Settled Q s x ∨ G.Settled Q' s' x)
    (TypeStore.region_of_leads ?_) (fun y hy => hy.elim (hfirm y) firm) (.inl h)
  rintro x (hx | hx) y hy
  · rcases hleads x hx with hx | hleads
    · exact .inr (hx.leads y hy)
    · exact hleads y hy
  · exact .inr (hx.leads y hy)

lemma settled_of_leads (hx : G.Firm Q s x)
    (h : ∀ y ∈ (s.types.get x).leads, G.Settled Q s y) : G.Settled Q s x := by
  refine .of_region (R := fun y => y = x ∨ G.Settled Q s y)
    (TypeStore.region_of_leads ?_) (fun y hy => hy.elim (fun heq => heq ▸ hx) Settled.firm)
    (.inl rfl)
  rintro y (rfl | hy) z hz
  · exact .inr (h z hz)
  · exact .inr (hy.leads z hz)

/-- The shape leads to settled slots. -/
structure Backed (G : Outlook) (Q : Slot → Prop) (s : Resolving) (shape : Shape) : Prop where
  leads : ∀ y ∈ shape.leads, G.Settled Q s y
  original : G.Original shape

lemma Settled.backed (h : G.Settled Q s x) : G.Backed Q s (s.types.get x) :=
  ⟨h.leads, h.firm.original⟩

/-- Other than classes and enums, a shape leads to its components only. -/
lemma Backed.plain (h : shape.nominalName? = none)
    (hparts : ∀ y ∈ shape.components, G.Settled Q s y) : G.Backed Q s shape :=
  ⟨fun y hy => hparts y (shape.leads_of_plain h ▸ hy), original_of_plain h⟩

/-- A shape without parts. -/
lemma Backed.leaf (h : shape.nominalName? = none) (hparts : shape.components = []) :
    G.Backed Q s shape :=
  .plain h (by simp [hparts])

/-- A new slot with a shape that leads to settled slots. -/
lemma settled_of_backed (hle : G.groundwork.size ≤ x) (hlt : x < s.types.size) (hfree : ¬ Q x)
    (h : G.Backed Q s (s.types.get x)) : G.Settled Q s x :=
  settled_of_leads (firm_of_high hle hlt hfree h.original) h.leads

/-- Fewer slots are reserved. -/
lemma Settled.weaken (h : G.Settled Q s x) (hQ : ∀ x, Q' x → Q x) : G.Settled Q' s x := by
  obtain ⟨R, hregion, hR, hx⟩ := h
  exact ⟨R, hregion, fun y hy => { hR y hy with free := fun hq => (hR y hy).free (hQ y hq) }, hx⟩

/-! ### Later states -/

/-- A later state, perhaps with other slots reserved: what is settled stays so, and stays the same
type. Of what is firm but leads elsewhere, the contents stay. -/
structure Later (G : Outlook) (Q : Slot → Prop) (s : Resolving) (Q' : Slot → Prop)
    (s' : Resolving) : Prop where
  size_le : s.types.size ≤ s'.types.size
  nodeType : ∀ n x, s.nodeType? n = some x → s'.nodeType? n = some x
  high : ∀ x, G.groundwork.size ≤ x → G.Firm Q s x → ¬ Q' x ∧ s'.types.get x = s.types.get x
  settled : ∀ x, G.Settled Q s x → G.Settled Q' s' x
  keeps : TypeStore.Keeps True (G.Settled Q s) s.types s'.types

namespace Later

variable {Q1 : Slot → Prop}

lemma trans (h1 : G.Later Q s Q1 s1) (h2 : G.Later Q1 s1 Q' s') : G.Later Q s Q' s' where
  size_le := h1.size_le.trans h2.size_le
  nodeType n x h := h2.nodeType n x (h1.nodeType n x h)
  high x hle hx := by
    obtain ⟨hfree, hget⟩ := h1.high x hle hx
    obtain ⟨hfree', hget'⟩ := h2.high x hle
      (firm_of_high hle (hx.lt.trans_le h1.size_le) hfree (hget ▸ hx.original))
    exact ⟨hfree', hget'.trans hget⟩
  settled x hx := h2.settled x (h1.settled x hx)
  keeps := h1.keeps.trans h2.keeps h1.settled (G.region_settled Q s).closed
    (G.region_settled Q1 s1).closed

/-- The slots in `Q'` may be some that were reserved before. -/
lemma close (hQ : ∀ x, Q' x → Q x) : G.Later Q s Q' s where
  size_le := le_rfl
  nodeType _ _ h := h
  high _ _ hx := ⟨fun hq => hx.free (hQ _ hq), rfl⟩
  settled _ hx := hx.weaken hQ
  keeps := TypeStore.keeps_of_eq fun _ _ => rfl

lemma refl : G.Later Q s Q s := close fun _ h => h

variable (h : G.Later Q s Q' s') (hx : G.Settled Q s x)
include h hx

lemma alike : Alike True s.types s'.types (s.types.get x) (s'.types.get x) :=
  h.keeps x hx

lemma isIncomplete : s'.types.isIncomplete x = s.types.isIncomplete x :=
  h.keeps.isIncomplete (G.region_settled Q s).closed hx

lemma hasDeferred : s'.types.hasDeferred x = s.types.hasDeferred x :=
  h.keeps.hasDeferred (G.region_settled Q s).closed hx

lemma fits (hy : G.Settled Q s y) (hf : s.types.fits x y = true) : s'.types.fits x y = true :=
  TypeStore.fits_keeps trivial h.keeps (G.region_settled Q s).closed (G.region_settled Q s).base
    h.size_le hx hy hf

lemma holds {r : Relation} (hy : G.Settled Q s y) (hh : r.holds s.types x y = true) :
    r.holds s'.types x y = true :=
  Relation.holds_keeps r trivial h.keeps (G.region_settled Q s).closed
    (G.region_settled Q s).base h.size_le (.inl ⟨rfl, hx⟩) (.inl ⟨rfl, hy⟩) hh

end Later

/-! ### What is assured -/

/-- In every later state in which the nodes are complete, `φ` holds. -/
def Assures (G : Outlook) (Q : Slot → Prop) (s : Resolving) (ns : List NodeId)
    (φ : Context → Prop) : Prop :=
  ∀ Q' s', G.Later Q s Q' s' → (∀ n ∈ ns, s'.Complete n) → φ s'.toContext

/-- The nodes will not be complete in any later state. -/
abbrev Doomed (G : Outlook) (Q : Slot → Prop) (s : Resolving) (ns : List NodeId) : Prop :=
  G.Assures Q s ns fun _ => False

namespace Assures

lemma later (h : G.Assures Q s ns φ) (hl : G.Later Q s Q' s') : G.Assures Q' s' ns φ :=
  fun Q2 s2 hl2 => h Q2 s2 (hl.trans hl2)

lemma mono {ms : List NodeId} (h : G.Assures Q s ms φ) (hsub : ∀ n ∈ ms, n ∈ ns) :
    G.Assures Q s ns φ :=
  fun Q2 s2 hl hc => h Q2 s2 hl fun n hn => hc n (hsub n hn)

lemma imp (h : G.Assures Q s ns φ) (himp : ∀ c, φ c → ψ c) : G.Assures Q s ns ψ :=
  fun Q2 s2 hl hc => himp _ (h Q2 s2 hl hc)

end Assures

/-- What has a settled slot and may become complete is complete. -/
lemma complete_of_live (h : ¬ G.Doomed Q s ns) (hn : n ∈ ns) (hx : s.nodeType? n = some x)
    (hset : G.Settled Q s x) : s.types.isIncomplete x = false := by
  by_contra hi
  refine h fun Q' s' hl hc => ?_
  obtain ⟨y, hy, hcomplete⟩ := hc n hn
  obtain rfl : y = x := Option.some.inj (hy.symm.trans (hl.nodeType n x hx))
  rw [hl.isIncomplete hset] at hcomplete
  exact hi hcomplete

/-! ### Stages -/

/-- The symbol is that of a local variable, which is void. -/
def Local (G : Outlook) (Q : Slot → Prop) (s : Resolving) (symbol : Symbol) : Prop :=
  ∃ x, s.nodeType? symbol.declaration = some x ∧ G.groundwork.size ≤ x ∧ x < s.types.size ∧
    ¬ Q x ∧ s.types.get x = .void

/-- The scopes of a state of the walk. Names stand for what signatures declare, or for variables
that are local. -/
structure Environs (G : Outlook) (Q : Slot → Prop) (s : Resolving) : Prop where
  symbols : ∀ symbol, s.Declares symbol → G.start.Declares symbol ∨ G.Local Q s symbol
  objects : ∀ id sc, s.scope? id = some sc → sc.kind = .object →
    ∃ name, (sc.node, Tag.type name) ∈ G.program.layout
  owners : ∀ n q, G.plan.pending.get? n = some q → (s.scopeOf? q.owner).isSome
  outside : s.Outside G.plan

/-- What is declared stays declared, as long as local variables stay void. -/
lemma Environs.same (h : G.Environs Q s) (hscopes : s'.scopes = s.scopes)
    (hhomes : s'.nodeScopes = s.nodeScopes) (hsize : s.types.size ≤ s'.types.size)
    (hn : ∀ n x, s.nodeType? n = some x → s'.nodeType? n = some x)
    (hhigh : ∀ x, G.groundwork.size ≤ x → G.Firm Q s x →
      ¬ Q' x ∧ s'.types.get x = s.types.get x) : G.Environs Q' s' := by
  have hscope : ∀ id, s'.scope? id = s.scope? id := fun id => by
    rw [Context.scope?, hscopes]
    rfl
  have hhome : ∀ n, s'.scopeOf? n = s.scopeOf? n := fun n => by
    rw [Context.scopeOf?, hhomes]
    rfl
  refine ⟨fun symbol hsym => ?_, fun id sc hsc => h.objects id sc (hscope id ▸ hsc),
    fun n q hq => hhome _ ▸ h.owners n q hq, fun n q id hq hid => ?_⟩
  · obtain ⟨id, sc, hsc, hmem⟩ := hsym
    refine (h.symbols symbol ⟨id, sc, hscope id ▸ hsc, hmem⟩).imp_right ?_
    rintro ⟨x, hx, hle, hlt, hfree, hvoid⟩
    obtain ⟨hfree', hget⟩ :=
      hhigh x hle (firm_of_high hle hlt hfree (hvoid ▸ original_of_plain rfl))
    exact ⟨x, hn _ x hx, hle, hlt.trans_le hsize, hfree', hget.trans hvoid⟩
  · rw [Context.scopeKind?, hscope]
    exact h.outside n q id hq (hhome _ ▸ hid)

/-- A state of the walk in which the slots in `Q` are reserved. The slots of signatures are settled,
apart from guesses, and so is what names stand for. -/
structure Stage (G : Outlook) (Q : Slot → Prop) (s : Resolving) : Prop extends G.Environs Q s where
  footing : Footing G.groundwork s
  lettered : Lettered G.groundwork s
  apart : ∀ n ∈ s.resolving, n ∉ s.resolved
  reserved : ∀ x, Q x → G.groundwork.size ≤ x ∧ x < s.types.size
  low : ∀ x < G.groundwork.size, ¬ G.Guessed s x → G.Settled Q s x
  sound : G.strict → ∀ v ∈ G.program.variables, v.id ∈ s.resolved → ∀ e, v.value = some e →
    G.Assures Q s e.nodes fun c => e.Sound c

namespace Stage

/-- A later state, in which the same variables have still to be resolved. -/
lemma next (h : G.Stage Q s) (hl : G.Later Q s Q' s') (he : G.Environs Q' s')
    (hf : Footing G.groundwork s') (hlettered : Lettered G.groundwork s')
    (hapart : ∀ n ∈ s'.resolving, n ∉ s'.resolved)
    (hreserved : ∀ x, Q' x → Q x ∨ s.types.size ≤ x ∧ x < s'.types.size)
    (hpends : ∀ v ∈ G.program.variables, v.type = none → G.Pends s v → G.Pends s' v)
    (hresolved : ∀ v ∈ G.program.variables, v.id ∈ s'.resolved → v.id ∈ s.resolved) :
    G.Stage Q' s' where
  toEnvirons := he
  footing := hf
  lettered := hlettered
  apart := hapart
  reserved x hq := (hreserved x hq).elim
    (fun hq => (h.reserved x hq).imp_right fun hlt => hlt.trans_le hl.size_le)
    (And.imp_left h.footing.le.trans)
  low x hlt hg := hl.settled x (h.low x hlt fun hg' => hg (hg'.mono hpends))
  sound hstrict v hv hr e he := (h.sound hstrict v hv (hresolved v hv hr) e he).later hl

/-- Fewer slots are reserved. -/
lemma close (h : G.Stage Q s) (hQ : ∀ x, Q' x → Q x) : G.Stage Q' s :=
  h.next (.close hQ) (h.same rfl rfl le_rfl (fun _ _ hn => hn) (Later.close hQ).high) h.footing
    h.lettered h.apart (fun x hq => .inl (hQ x hq)) (fun _ _ _ h => h) fun _ _ h => h

/-- What is firm and was there from the beginning is settled. -/
lemma settled_of_firm (h : G.Stage Q s) (hx : G.Firm Q s x) (hlt : x < G.groundwork.size) :
    G.Settled Q s x :=
  h.low x hlt hx.known

lemma not_guessed_of_key (hx : G.start.nodeType? n = some x)
    (hv : ∀ v ∈ G.program.variables, v.type = none → v.id = n → ¬ G.Pends s v) :
    ¬ G.Guessed s x := by
  rintro ⟨v, hmem, htype, hpends, hvx⟩
  exact hv v hmem htype (Setting.eq_of_slot hmem hvx hx).symm hpends

/-- The slot of a class or an enum is settled. -/
lemma settled_type (h : G.Stage Q s) {name : String}
    (hx : TypeSlot G.program.layout s.toContext name x) : G.Settled Q s x := by
  obtain ⟨d, hd, hdx⟩ := h.footing.typeSlot_iff.mp hx
  refine h.low x (G.starts.orderly.typed d x hdx).2
    (not_guessed_of_key hdx fun v hv _ heq => ?_)
  cases G.groundwork.arranged.tag_unique hd (heq ▸ Setting.variable_tag hv)

end Stage

/-- No signature refers to a slot that is reserved. -/
lemma Stage.not_pinned (hs : G.Stage Q s) (hx : Q x) : ¬ Pinned G.groundwork s x := by
  rintro ⟨y, ps, ⟨hlt, hbare⟩, hy⟩
  have hset : G.Settled Q s y :=
    hs.low y hlt fun ⟨v, hv, htype, _, hvy⟩ => hbare v hv htype hvy
  refine (hset.leads x ?_).firm.free hx
  rw [hy]
  exact List.mem_cons_self

/-- **What is settled stays** over a step of the walk, whatever is resolved meanwhile. -/
lemma Later.of_advances (h : Advances G.groundwork ns s s') (hs : G.Stage Q s)
    (hQ : ∀ x, Q' x → Q x ∨ s.types.size ≤ x ∧ ¬ Pinned G.groundwork s' x) : G.Later Q s Q' s' := by
  have hold : ∀ x < s.types.size, Q' x → Q x := fun x hlt hq =>
    (hQ x hq).resolve_right fun hnew => absurd hnew.1 (Nat.not_le.mpr hlt)
  -- what changes is a part of an annotation, which is resolved to the same type again
  have hcases : ∀ x, G.Settled Q s x → s'.types.get x = s.types.get x ∨ G.groundwork.Fixed x ∧
      Alike True s.types s'.types (s.types.get x) (s'.types.get x) := by
    intro x hx
    rcases Nat.lt_or_ge x G.groundwork.size with hlt | hle
    · rcases h.low trivial x hlt with hstays | ⟨v, hv, hw, -, n, hn, hnx, -⟩
      · exact .inl (hstays.eq G.distinct.unambiguous)
      · rcases htype : v.type with _ | type
        · rw [htype] at hn
          obtain rfl := List.mem_singleton.mp hn
          exact absurd ⟨v, hv, htype, ⟨hw.1, .inr hw.2⟩, hnx⟩ hx.firm.known
        · have hkey := G.groundwork.key hv hn
          refine .inr ⟨G.groundwork.fixed_annotated hv (by simp [htype]) hn hnx, ?_⟩
          rw [htype] at hn
          exact Setting.alike_of_lettered hs.footing h.footing h.nodeType hs.lettered
            (h.lettered trivial hs.lettered) hv htype hn ((hs.footing.nodes n hkey).trans hnx)
    · exact .inl (h.old x hle hx.firm.lt)
  have halike : ∀ x, G.Settled Q s x →
      Alike True s.types s'.types (s.types.get x) (s'.types.get x) :=
    fun x hx => (hcases x hx).elim .of_eq And.right
  refine ⟨h.size_le, h.nodeType, fun x hle hx => ⟨fun hq => hx.free (hold x hx.lt hq),
    h.old x hle hx.lt⟩, fun x => Settled.transfer (fun x hx => ⟨hx.firm.lt.trans_le h.size_le,
      fun hg => hx.firm.known (hg.mono fun v _ _ => pends_of_advances h),
      fun hq => hx.firm.free (hold x hx.firm.lt hq), hx.firm.original.alike (halike x hx)⟩)
    fun x hx => .inr fun y hy => ?_, halike⟩
  rcases hcases x hx with heq | ⟨hfixed, halike⟩
  · exact .inl (hx.leads y (heq ▸ hy))
  · rcases halike.mem_leads hy with hy | ⟨hvoid, ps, hget⟩
    · exact .inl (hx.leads y hy)
    · -- the result of a function that is written without one
      have hpinned : Pinned G.groundwork s' y := ⟨x, ps, hfixed, hget⟩
      have hlow : ∀ {z}, G.groundwork.Fixed z → G.Settled Q s z := fun {z} hz =>
        hs.low z hz.1 fun ⟨v, hv, htype, _, hvz⟩ => hz.2 v hv htype hvz
      rcases h.pinned y hpinned with ⟨z, qs, hz, hz'⟩ | hge | hfixed
      · refine .inl ((hlow hz).leads y ?_)
        rw [hz']
        exact List.mem_cons_self
      · refine .inr (settled_of_backed (hs.footing.le.trans hge) (h.footing.pinned y hpinned)
          (fun hq => ?_) (hvoid ▸ .leaf rfl rfl))
        exact (hQ y hq).elim (fun hq => absurd (hs.reserved y hq).2 (Nat.not_lt.mpr hge))
          fun hfree => hfree.2 hpinned
      · exact .inl (hlow hfixed)

/-- What is settled stays where nothing that is firm changes. -/
lemma Later.of_kept (hsize : s.types.size ≤ s'.types.size)
    (hn : ∀ n x, s.nodeType? n = some x → s'.nodeType? n = some x)
    (hpends : ∀ v ∈ G.program.variables, v.type = none → G.Pends s' v → G.Pends s v)
    (hQ : ∀ x < s.types.size, Q' x → Q x)
    (hkept : ∀ x, G.Firm Q s x → s'.types.get x = s.types.get x) : G.Later Q s Q' s' := by
  have hfirm : ∀ x, G.Firm Q s x → G.Firm Q' s' x := fun x hx =>
    ⟨hx.lt.trans_le hsize, fun hg => hx.known (hg.mono hpends), fun hq => hx.free (hQ x hx.lt hq),
      (hkept x hx).symm ▸ hx.original⟩
  refine ⟨hsize, hn, fun x _ hx => ⟨(hfirm x hx).free, hkept x hx⟩,
    fun x => Settled.transfer (fun x hx => hfirm x hx.firm) fun x hx => .inr ?_,
    TypeStore.keeps_of_eq fun x hx => hkept x hx.firm⟩
  rw [hkept x hx.firm]
  exact fun y hy => .inl (hx.leads y hy)

/-- A step that changes nothing firm, nor any scopes. New slots may be reserved. -/
lemma Stage.retype (h : G.Stage Q s) (hf : Footing G.groundwork { s with toContext := c })
    (hl : Lettered G.groundwork { s with toContext := c }) (hsize : s.types.size ≤ c.types.size)
    (hn : ∀ n x, s.nodeType? n = some x → c.nodeType? n = some x) (hscopes : c.scopes = s.scopes)
    (hhomes : c.nodeScopes = s.nodeScopes)
    (hQ : ∀ x, Q' x → Q x ∨ s.types.size ≤ x ∧ x < c.types.size)
    (hkept : ∀ x, G.Firm Q s x → c.types.get x = s.types.get x) :
    G.Stage Q' { s with toContext := c } ∧ G.Later Q s Q' { s with toContext := c } := by
  have hl' : G.Later Q s Q' { s with toContext := c } :=
    .of_kept hsize hn (fun _ _ _ hp => hp) (fun x hlt hq => (hQ x hq).resolve_right fun hnew =>
      absurd hnew.1 (Nat.not_le.mpr hlt)) hkept
  exact ⟨h.next hl' (h.same hscopes hhomes hsize hn hl'.high) hf hl h.apart hQ (fun _ _ _ h => h)
    fun _ _ h => h, hl'⟩

/-- A node is given a slot. New slots may be reserved. -/
lemma Stage.place {T : Slot → Prop} (h : G.Stage Q s) (hfresh : Fresh G.groundwork.vars [n] s)
    (hp : Places n x s.toContext c)
    (hT : ∀ x, T x → Q x ∨ s.types.size ≤ x ∧ x < c.types.size) :
    G.Stage T { s with toContext := c } ∧ G.Later Q s T { s with toContext := c } := by
  have ha := G.groundwork.frame.place h.footing hfresh hp
  refine h.retype ha.footing (ha.lettered trivial h.lettered) hp.size_le (fun _ _ => hp.keeps) ?_ ?_
    hT fun x hx => hp.old x hx.lt
  · rw [hp.rest]
  · rw [hp.rest]

/-- Where the walk begins nothing is reserved. -/
lemma stage_start (G : Outlook) : G.Stage ⊥ G.start where
  footing := G.footing
  lettered v hv l hl := G.starts.annotated l
    (List.mem_flatMap.mpr ⟨.var v, Program.mem_variables.mp hv, hl⟩)
  symbols _ h := .inl h
  objects := G.starts.orderly.objects
  outside := (G.starts.outdoors G.tidy G.frames).housed.outside G.tidy
  owners n q hq := by
    obtain ⟨-, -, howner⟩ := G.starts.serves.pending n q hq
    rcases Program.mem_owners.mp howner with heq | ⟨o, ho, heq⟩
    · rw [heq, G.starts.home]
      rfl
    · obtain ⟨id, -, hid, -⟩ : G.start.Homes o.id .object :=
        Resolve.atHome_of_scopedAll G.starts.homes ho
      rw [heq, hid]
      rfl
  apart n hn := by
    rw [G.starts.resolving] at hn
    cases hn
  reserved _ h := h.elim
  low := by
    intro x hlt hg
    refine .of_region (R := fun y => y < G.groundwork.size ∧ ¬ G.Guessed G.start y)
      (TypeStore.region_of_leads fun y _ z hz => ⟨(leads_start hz).1, fun ⟨v, hv, _, _, hvz⟩ =>
        (leads_start hz).2 v hv hvz⟩) (fun y hy => ⟨hy.1, hy.2, id, fun _ => ⟨y, rfl⟩⟩) ⟨hlt, hg⟩
  sound _ v _ hr := by
    rw [G.starts.resolved] at hr
    cases hr

end Outlook

end Sema
