import Mathlib.Data.List.Find
import Sema.Proofs.Agreement
import Sema.Proofs.Displayed
import Sema.Proofs.WellFormed

/-!
Questions about a well-formed context are answered from what is there. They follow the numbers of
scopes and slots from one to the next, and an access beyond the end of an array could come to
anything; but none is made, as long as one asks about slots and scopes that exist.
-/

namespace Sema

open Sema.Action

namespace Graph

variable {n v : Nat}

lemma trail_congr {next next' : Nat → Option Nat} (h : ∀ v < n, next' v = next v)
    (hclosed : ∀ v < n, ∀ w, next v = some w → w < n) (hv : v < n) :
    trail next' n v = trail next n v := by
  have hclosed' : ∀ v < n, ∀ w, next' v = some w → w < n := fun v hv w hw =>
    hclosed v hv w (h v hv ▸ hw)
  have hle : trail next' n v <+: trail next n v :=
    trailFrom_isPrefix (fun v hv => (h v hv).symm) hclosed' le_rfl hv
  exact hle.eq_of_length_le (trailFrom_isPrefix h hclosed le_rfl hv).length_le

lemma explore_congr {next next' : Nat → List Nat} (h : ∀ v < n, next' v = next v)
    (hclosed : ∀ v < n, ∀ w ∈ next v, w < n) : ∀ (fuel : Nat) (seen pending : List Nat),
      (∀ v ∈ pending, v < n) → explore next' fuel seen pending = explore next fuel seen pending
  | 0, _, _, _ => rfl
  | _ + 1, _, [], _ => rfl
  | fuel + 1, seen, v :: pending, hp => by
    obtain ⟨hv, hp⟩ := List.forall_mem_cons.mp hp
    unfold explore
    rw [h v hv]
    split
    · exact explore_congr h hclosed fuel seen pending hp
    · exact explore_congr h hclosed fuel _ _ (List.forall_mem_append.mpr ⟨hclosed v hv, hp⟩)

lemma reachable_congr {next next' : Nat → List Nat} (h : ∀ v < n, next' v = next v)
    (hclosed : ∀ v < n, ∀ w ∈ next v, w < n) (hv : v < n) :
    reachable next' n v = reachable next n v := by
  have hcount : edgeCount next' n = edgeCount next n :=
    congrArg List.length (List.flatMap_congr fun v hv => h v (List.mem_range.mp hv))
  rw [reachable, hcount]
  exact explore_congr h hclosed _ _ _ (by simpa using hv)

end Graph

lemma findSome?_congr {α β : Type} {f g : α → Option β} {l : List α} (h : ∀ x ∈ l, f x = g x) :
    l.findSome? f = l.findSome? g := by
  rw [← List.head?_filterMap, List.filterMap_congr h, List.head?_filterMap]

/-! ### Slots inside types -/

namespace Context.WellFormed

variable {c : Context} {x y : Slot}

lemma component_lt (hc : c.WellFormed) (h : y ∈ (c.types.get x).components) : y < c.types.size :=
  (hc.knows x).handles y (List.mem_append_left _ h)

lemma argument_lt (hc : c.WellFormed) {constructor : String}
    (h : (c.types.get x).argumentOf? constructor = some y) : y < c.types.size := by
  refine hc.component_lt (x := x) ?_
  generalize c.types.get x = shape at h
  unfold Shape.argumentOf? at h
  split at h
  · split at h
    · cases h
      exact List.mem_singleton_self y
    · cases h
  · cases h

lemma unwrapped_lt (hc : c.WellFormed) (hx : x < c.types.size) :
    c.types.unwrapped x < c.types.size := by
  unfold TypeStore.unwrapped
  rcases h : c.types.optionalInner? x with _ | inner
  · exact hx
  · exact hc.argument_lt h

lemma valueOf_lt (hc : c.WellFormed) (hx : x < c.types.size) :
    c.types.valueOf x < c.types.size := by
  unfold TypeStore.valueOf
  split
  · next hshape => exact hc.component_lt (x := x) (by simp [hshape, Shape.components])
  · exact hx

lemma findField?_lt (hc : c.WellFormed) {name : String} (h : c.types.findField? x name = some y) :
    y < c.types.size := by
  obtain ⟨k, -, hk⟩ := List.exists_of_findSome?_eq_some h
  refine (hc.knows k).handles y (List.mem_append_right _ ?_)
  generalize c.types.get k = shape at hk
  cases shape with
  | object scope base name fields =>
    obtain ⟨l, r, hfields, -⟩ := List.lookup_eq_some_iff.mp hk
    have hfields : fields = l ++ (_, y) :: r := hfields
    simp [Shape.nominalHandles, hfields]
  | _ => simp [Shape.fields] at hk

end Context.WellFormed

/-! ### Types -/

namespace TypeStore

variable {t : TypeStore} {x : Slot} {l : List Slot}

lemma get_at (hx : x < t.size) (A : Access) : @get A t x = @get .usual t x :=
  congrArg (Option.getD · Shape.unknown) (A.read_eq hx)

lemma any_at (h : ∀ y ∈ l, y < t.size) (p : Shape → Bool) (A : Access) :
    (l.any fun y => p (@get A t y)) = l.any fun y => p (@get .usual t y) := by
  induction l with
  | nil => rfl
  | cons y l ih =>
    obtain ⟨hy, hl⟩ := List.forall_mem_cons.mp h
    simp only [List.any_cons, get_at hy, ih hl]

lemma freshNames_at (h : ∀ y ∈ l, y < t.size) (seen : List String) (A : Access) :
    @freshNames A t seen l = @freshNames .usual t seen l := by
  induction l generalizing seen with
  | nil => rfl
  | cons y l ih =>
    obtain ⟨hy, hl⟩ := List.forall_mem_cons.mp h
    simp only [freshNames, get_at hy, ih hl]

end TypeStore

namespace Context.WellFormed

open TypeStore

variable {c : Context} {x y : Slot} (hc : c.WellFormed) (hx : x < c.types.size)
include hc

lemma bases_lt : ∀ y ∈ c.types.bases x, y < c.types.size := by
  unfold bases
  split
  · next hb => exact hc.lineage_lt (hc.base?_lt hb)
  · simp

include hx

lemma parts_at (A : Access) : @parts A c.types x = @parts .usual c.types x :=
  Graph.reachable_congr (fun _ hy => congrArg Shape.components (get_at hy A))
    (fun _ => hc.types_inRange.component_lt) hx

lemma isIncomplete_at (A : Access) :
    @isIncomplete A c.types x = @isIncomplete .usual c.types x := by
  rw [isIncomplete, hc.parts_at hx]
  exact any_at (hc.parts_lt hx) _ A

lemma lineage_at (A : Access) : @lineage A c.types x = @lineage .usual c.types x :=
  Graph.trail_congr (fun _ hy => congrArg Shape.base? (get_at hy A)) (fun _ _ _ => hc.base?_lt) hx

lemma bases_at (A : Access) : @bases A c.types x = @bases .usual c.types x := by
  have hb : @base? A c.types x = @base? .usual c.types x := congrArg Shape.base? (get_at hx A)
  unfold bases
  rw [hb]
  split
  · next hb => exact hc.lineage_at (hc.base?_lt hb) A
  · rfl

lemma ancestorNames_at (A : Access) :
    @ancestorNames A c.types x = @ancestorNames .usual c.types x := by
  simp only [ancestorNames, get_at hx, hc.bases_at hx, freshNames_at hc.bases_lt]

lemma inheritsFromItself_at (A : Access) :
    @inheritsFromItself A c.types x = @inheritsFromItself .usual c.types x := by
  simp only [inheritsFromItself, get_at hx, hc.bases_at hx]
  split
  · rfl
  · exact any_at hc.bases_lt (fun s => decide (s.nominalName? = _)) A

lemma findField?_at (name : String) (A : Access) :
    @findField? A c.types x name = @findField? .usual c.types x name := by
  unfold findField?
  rw [hc.lineage_at hx]
  exact findSome?_congr fun y hy => by rw [get_at (hc.lineage_lt hx y hy)]

omit hx in
lemma displayWithin_at (A : Access) : ∀ (fuel : Nat) (path : List Slot) {x : Slot},
    x < c.types.size → @displayWithin A c.types fuel path x =
      @displayWithin .usual c.types fuel path x
  | 0, _, _, _ => rfl
  | fuel + 1, path, x, hx => by
    unfold displayWithin
    rw [get_at hx]
    split
    · rfl
    · exact Shape.display_congr fun y hy =>
        displayWithin_at A fuel _ (hc.types_inRange.component_lt hx y hy)

/-- **Questions about one type.** -/
lemma type_at (A : Access) :
    @get A c.types x = @get .usual c.types x ∧
    @optionalInner? A c.types x = @optionalInner? .usual c.types x ∧
    @arrayElement? A c.types x = @arrayElement? .usual c.types x ∧
    @base? A c.types x = @base? .usual c.types x ∧
    @valueOf A c.types x = @valueOf .usual c.types x ∧
    @unwrapped A c.types x = @unwrapped .usual c.types x ∧
    @isIncomplete A c.types x = @isIncomplete .usual c.types x ∧
    @hasDeferred A c.types x = @hasDeferred .usual c.types x ∧
    @display A c.types x = @display .usual c.types x := by
  refine ⟨get_at hx A, ?_, ?_, ?_, ?_, ?_, hc.isIncomplete_at hx A, ?_,
    hc.displayWithin_at A _ _ hx⟩
  · rw [optionalInner?, get_at hx]
    rfl
  · rw [arrayElement?, get_at hx]
    rfl
  · rw [base?, get_at hx]
    rfl
  · rw [valueOf, get_at hx]
    rfl
  · rw [unwrapped, optionalInner?, get_at hx]
    rfl
  · rw [hasDeferred, hc.parts_at hx]
    exact any_at (hc.parts_lt hx) _ A

omit hx in
lemma hasItem_at (items : List Slot) (h : ∀ y ∈ items, y ∈ (c.types.get x).handles)
    (item : String) (A : Access) :
    @hasItem A c.types items item = @hasItem .usual c.types items item :=
  any_at (fun y hy => (hc.knows x).handles y (h y hy)) _ A

omit hx in
lemma operand_lt (r : Relation) (hx : x < c.types.size) : r.operand c.types x < c.types.size := by
  cases r with
  | value => exact hc.valueOf_lt hx
  | plain | hierarchy => exact hx

lemma operand_at (r : Relation) (A : Access) :
    @r.operand A c.types x = @r.operand .usual c.types x := by
  cases r with
  | value => exact (hc.type_at hx A).2.2.2.2.1
  | plain | hierarchy => rfl

omit hx in
lemma holdsWithin_at (r : Relation) (A : Access) : ∀ (fuel : Nat) {x y : Slot}, x < c.types.size →
    y < c.types.size → @r.holdsWithin A c.types fuel x y = @r.holdsWithin .usual c.types fuel x y
  | 0, _, _, _, _ => rfl
  | fuel + 1, x, y, hx, hy => by
    have hx' := hc.operand_lt r hx
    have hy' := hc.operand_lt r hy
    -- one layer, and then what is inside it
    have hlayer : ∀ f a b, a < c.types.size → b < c.types.size →
        @r.layersAgree A c.types f a b = @r.layersAgree .usual c.types f a b :=
          fun f a b ha hb => by
      simp only [Relation.layersAgree, Relation.classesAgree, get_at ha, get_at hb,
        hc.ancestorNames_at ha, hc.ancestorNames_at hb]
    unfold Relation.holdsWithin
    simp only [hc.operand_at hx, hc.operand_at hy]
    rw [hlayer _ _ _ hx' hy', Relation.layersAgree_congr fun x y hx hy => holdsWithin_at r A fuel
      (hc.types_inRange.component_lt hx' x hx) (hc.types_inRange.component_lt hy' y hy)]

omit hx in
lemma holds_at (r : Relation) (hx : x < c.types.size) (hy : y < c.types.size) (A : Access) :
    @r.holds A c.types x y = @r.holds .usual c.types x y :=
  hc.holdsWithin_at r A _ hx hy

omit hx in
lemma fits_at (hx : x < c.types.size) (hy : y < c.types.size) (A : Access) :
    @fits A c.types x y = @fits .usual c.types x y := by
  simp only [fits, hc.type_at hx, hc.holds_at _ hx hy]
  rcases h : @optionalInner? .usual c.types x with _ | inner
  · rfl
  · simp only [Option.any_some, hc.holds_at _ (hc.argument_lt h) hy]

end Context.WellFormed

/-! ### Scopes and names -/

lemma Context.scope?_at {c : Context} {id : ScopeId} (h : id < c.scopes.size) (A : Access) :
    @scope? A c id = @scope? .usual c id :=
  A.read_eq h

namespace Context.WellFormed

variable {c : Context} (hc : c.WellFormed)
include hc

lemma enclosing?_at (kind : ScopeKind) (A : Access) :
    @enclosing? A c kind = @enclosing? .usual c kind :=
  List.find?_congr fun id hid => by rw [scopeKind?, scope?_at (hc.stack id hid)]; rfl

lemma enclosingScope_at (kind : ScopeKind) (A : Access) :
    (@enclosing? A c kind).bind (@scope? A c) =
      (@enclosing? .usual c kind).bind (@scope? .usual c) := by
  rw [hc.enclosing?_at]
  exact Option.bind_congr fun id h => scope?_at (hc.enclosing?_lt h) A

lemma currentKind?_at (A : Access) : @currentKind? A c = @currentKind? .usual c := by
  unfold currentKind?
  rcases h : c.current? with _ | id
  · rfl
  · simp only [Option.bind_some, scopeKind?, scope?_at (hc.current?_lt h)]

lemma mustReopen_at (mode : ScopeMode) (kind : ScopeKind) (A : Access) :
    @mode.mustReopen A c kind = @mode.mustReopen .usual c kind := by
  simp only [ScopeMode.mustReopen, isInside, hc.enclosing?_at]

lemma around_at {id : ScopeId} (h : id < c.scopes.size) (A : Access) :
    @around A c id = @around .usual c id :=
  Graph.trail_congr (fun k hk => by rw [parent?, scope?_at hk]; rfl)
    (fun _ hk _ hp => (hc.parent?_lt hp).trans hk) h

/-- The type of a node refers to existing slots. -/
lemma knows_shape? {n : NodeId} {shape : Shape} (h : c.shape? n = some shape) : c.Knows shape := by
  obtain ⟨x, -, rfl⟩ := Option.map_eq_some_iff.mp h
  exact hc.knows x

lemma shape?_at (A : Access) : @shape? A c = @shape? .usual c := by
  funext n
  unfold shape?
  rcases h : c.nodeType? n with _ | x
  · rfl
  · exact congrArg some (TypeStore.get_at (hc.nodeTypes n x h) A)

lemma baseScope?_at {id : ScopeId} (h : id < c.scopes.size) (A : Access) :
    @baseScope? A c id = @baseScope? .usual c id := by
  unfold baseScope?
  rw [scope?_at h]
  simp only [Option.bind_eq_bind]
  refine Option.bind_congr fun sc _ => Option.bind_congr fun object hobject => ?_
  rw [(hc.type_at (hc.nodeTypes _ _ hobject) A).2.2.2.1]
  exact Option.bind_congr fun base hbase => by rw [TypeStore.get_at (hc.base?_lt hbase)]

lemma searchedAt_at (kind : SymbolKind) {id : ScopeId} (h : id < c.scopes.size) (A : Access) :
    @searchedAt A c kind id = @searchedAt .usual c kind id := by
  have hbases : @baseScopes A c id = @baseScopes .usual c id := congrArg List.tail <|
    Graph.trail_congr (fun k hk => hc.baseScope?_at hk A)
      (fun _ hk _ hb => hc.baseScope?_lt (Nat.zero_lt_of_lt hk) hb) h
  exact if_congr (by rw [scopeKind?, scope?_at h]; rfl) (congrArg _ hbases) rfl

lemma searched_at (kind : SymbolKind) (A : Access) :
    @searched A c kind = @searched .usual c kind := by
  unfold searched
  split
  · next id hid =>
    have hlt := hc.current?_lt hid
    rw [hc.around_at hlt]
    exact List.flatMap_congr fun k hk => hc.searchedAt_at kind (hc.around_lt hlt k hk) A
  · rfl

lemma lookup?_at (name : String) (kind : SymbolKind) (A : Access) :
    @lookup? A c name kind = @lookup? .usual c name kind := by
  unfold lookup?
  rw [hc.searched_at]
  exact findSome?_congr
    fun id hid => by rw [findLocal?, scope?_at (hc.searched_lt kind id hid)]; rfl

lemma declarationOf?_at (name : String) (kind : SymbolKind) (A : Access) :
    @declarationOf? A c name kind = @declarationOf? .usual c name kind :=
  congrArg _ (hc.lookup?_at name kind A)

lemma valueShape?_at (e : Expr) (A : Access) :
    @Collect.valueShape? A c e = @Collect.valueShape? .usual c e := by
  unfold Collect.valueShape?
  split
  · rfl
  · rw [hc.declarationOf?_at, hc.shape?_at]
  · simp only [Collect.callShape?, hc.declarationOf?_at, hc.shape?_at]
    split
    · next returns _ h =>
      obtain ⟨n, -, hn⟩ := Option.bind_eq_some_iff.mp h
      rw [TypeStore.get_at ((hc.knows_shape? hn).handles returns List.mem_cons_self)]
    · rfl
  · rfl

end Context.WellFormed

/-! ### Operations -/

namespace Context

variable {c : Context} {x y : Slot} {n : NodeId} {id : ScopeId}

lemma set_at (hx : x < c.types.size) (shape : Shape) (A : Access) :
    @TypeStore.set A c.types x shape = @TypeStore.set .usual c.types x shape :=
  congrArg TypeStore.mk (A.modify_eq _ hx)

lemma assign_at (hx : x < c.types.size) (hy : y < c.types.size) (A : Access) :
    @assign A c x y = @assign .usual c x y := by
  simp only [assign, TypeStore.assign, TypeStore.get_at hy, set_at hx]

lemma modifyScope_at (h : id < c.scopes.size) (f : Scope → Scope) (A : Access) :
    @modifyScope A c id f = @modifyScope .usual c id f := by
  simp only [modifyScope, A.modify_eq f h, Access.usual.modify_eq f h]

namespace WellFormed

variable (hc : c.WellFormed)
include hc

lemma bind_at (hy : y < c.types.size) (A : Access) :
    @Context.bind A c n y = @Context.bind .usual c n y := by
  unfold Context.bind
  split
  · next hx => rw [assign_at (hc.nodeTypes _ _ hx) hy]
  · rfl

lemma setShape_at (shape : Shape) (A : Access) :
    @Context.setShape A c n shape = @Context.setShape .usual c n shape := by
  unfold Context.setShape
  split
  · next hx => rw [set_at (hc.nodeTypes _ _ hx)]
  · rfl

lemma addSymbol_at (symbol : Symbol) (unique : Bool) (l : Location) (A : Access) :
    (@Check.addSymbol A symbol unique l).outcome c =
      (@Check.addSymbol .usual symbol unique l).outcome c := by
  simp only [Check.addSymbol, outcome_bind, outcome_get]
  split
  · next id hid =>
    have hlt := hc.current?_lt hid
    simp only [scope?_at hlt, modifyScope_at hlt]
  · rfl

lemma declare_at (name : String) (kind : SymbolKind) (d : NodeId) (l : Location) (A : Access) :
    (@Check.declare A name kind d l).outcome c =
      (@Check.declare .usual name kind d l).outcome c := by
  simp only [Check.declare, outcome_bind, outcome_get, hc.currentKind?_at, hc.addSymbol_at]

lemma enter_at (mode : ScopeMode) (kind : ScopeKind) (n : NodeId) (l : Location) (A : Access) :
    (@mode.enter A kind n l).outcome c = (@mode.enter .usual kind n l).outcome c := by
  cases mode <;> simp only [ScopeMode.enter, outcome_bind, outcome_get, hc.mustReopen_at]

end WellFormed

end Context

/-- **Every operation** finds what it is given. -/
lemma Op.run_at {c : Context} (hc : c.WellFormed) {op : Op} (h : op.Valid c) (A : Access) :
    (@run A op).outcome c = (@run .usual op).outcome c := by
  cases op with
  | openScope | reopenScope | closeScope | leave | setStack | alloc | slotOf | setFlow => rfl
  | enter mode kind n l => simp only [run, outcome_map, hc.enter_at]
  | addSymbol symbol unique l => simp only [run, outcome_map, hc.addSymbol_at]
  | declare name kind d l => simp only [run, outcome_map, hc.declare_at]
  | markReturn id =>
    simp only [run, outcome_map, outcome_modify, Context.markReturn, Context.modifyScope_at h]
  | set x shape => simp only [run, outcome_map, outcome_modify, Context.set_at h.1]
  | assign x y =>
    simp only [run, outcome_map, Check.assign, outcome_modify, Context.assign_at h.1 h.2]
  | bind n y => simp only [run, outcome_map, Check.bind, outcome_modifyGet, hc.bind_at h]
  | setShape n shape =>
    simp only [run, outcome_map, Check.setShape, outcome_modifyGet, hc.setShape_at]

end Sema
