import Sema.Proofs.Frames

/-!
Inference and what was there before. To resolve an expression may mean to resolve variables that are
still waiting, and their slots are then written; many nodes of the expression share slots with
variables, parameters, functions and classes. What inference writes afterwards are slots of literals
in the expression all the same, and these are new.

This holds as long as nodes have ids of their own: those of the expression, and those of the
variables that wait.
-/

namespace Sema

open Sema.Action

namespace Context

variable {c c1 c2 c' : Context} {M N : NodeId → Prop} {n d : NodeId} {x y : Slot}
  {ns : List NodeId}

/-- If a name stands for the node, the node has a type. -/
def Regular (c : Context) (n : NodeId) : Prop :=
  c.Declared n → ∃ x, c.nodeType? n = some x

/-! ### Nodes that are given types -/

/-- `c'` is what became of `c` when the nodes in `N` were given types. Other nodes have the slots
they had, unless a name stands for them and they had none, and a slot that belongs to no node in `N`
has the contents it had. -/
structure Visits (N : NodeId → Prop) (c c' : Context) : Prop where
  size_le : c.types.size ≤ c'.types.size
  nodeType : ∀ n x, c.nodeType? n = some x → c'.nodeType? n = some x
  same : ∀ n, ¬ N n → c.Regular n → c'.nodeType? n = c.nodeType? n
  old : ∀ x < c.types.size, (∀ n, N n → c.nodeType? n ≠ some x) →
    c'.types.get x = c.types.get x
  regular : ∀ n, c.Regular n → c'.Regular n

namespace Visits

lemma refl : Visits N c c :=
  ⟨le_rfl, fun _ _ h => h, fun _ _ _ => rfl, fun _ _ _ => rfl, fun _ h => h⟩

lemma mono (h : Visits M c c') (hsub : ∀ n, M n → N n) : Visits N c c' :=
  { h with
    same := fun n hn => h.same n fun hm => hn (hsub n hm)
    old := fun x hx hN => h.old x hx fun n hn => hN n (hsub n hn) }

/-- The nodes that come later are others, so that they have had the slots that they had in `c`. -/
lemma trans (h1 : Visits M c c1) (h2 : Visits N c1 c2) (hN : ∀ n, N n → ¬ M n ∧ c.Regular n) :
    Visits (fun n => M n ∨ N n) c c2 := by
  refine ⟨h1.size_le.trans h2.size_le, fun n x h => h2.nodeType n x (h1.nodeType n x h), ?_, ?_,
    fun n h => h2.regular n (h1.regular n h)⟩
  · intro n hn hr
    obtain ⟨hm, hn⟩ := not_or.mp hn
    exact (h2.same n hn (h1.regular n hr)).trans (h1.same n hm hr)
  · intro x hx hfree
    refine (h2.old x (hx.trans_le h1.size_le) fun n hn => ?_).trans
      (h1.old x hx fun n hm => hfree n (.inl hm))
    rw [h1.same n (hN n hn).1 (hN n hn).2]
    exact hfree n (.inr hn)

lemma regular_of_scopes (hscopes : c'.scopes = c.scopes)
    (hn : ∀ n x, c.nodeType? n = some x → c'.nodeType? n = some x) (h : c.Regular n) :
    c'.Regular n := by
  rintro ⟨id, sc, hsc, hd⟩
  rw [scope?, hscopes] at hsc
  exact (h ⟨id, sc, hsc, hd⟩).imp fun x => hn n x

lemma place (h : Places n x c c') : Visits (· = n) c c' := by
  refine ⟨h.size_le, fun _ _ => h.keeps, fun m hm _ => ?_, fun y hy _ => h.old y hy, fun m => ?_⟩
  · rw [h.nodeType?, if_neg hm]
  · exact regular_of_scopes (by rw [h.rest]) fun _ _ => h.keeps

/-- Writing into slots that are new since `c`, or belong to nodes that are given types. -/
lemma writes (h : Visits N c c1) {P : Slot → Prop} (hw : Writes P c1 c2)
    (hP : ∀ x, P x → c.types.size ≤ x ∨ ∃ n, N n ∧ c.nodeType? n = some x) : Visits N c c2 := by
  refine ⟨h.size_le.trans hw.size.ge, fun n x hx => (hw.nodeType? n).trans (h.nodeType n x hx),
    fun n hn hr => (hw.nodeType? n).trans (h.same n hn hr), fun x hx hfree => ?_, fun n hr => ?_⟩
  · refine (hw.get x fun hp => ?_).trans (h.old x hx hfree)
    rcases hP x hp with hle | ⟨n, hn, hnx⟩
    · exact absurd hx (Nat.not_lt.mpr hle)
    · exact hfree n hn hnx
  · refine regular_of_scopes (by rw [hw.rest]) (fun n x hx => ?_) (h.regular n hr)
    exact (hw.nodeType? n).trans hx

/-- A node that has a slot, into which something is written. -/
lemma write (hn : c.nodeType? n = some x) (hw : Writes (· = x) c c') : Visits (· = n) c c' := by
  refine refl.writes hw ?_
  rintro _ rfl
  exact .inr ⟨n, rfl, hn⟩

lemma slotOf (h : c.slotOf n = (x, c')) : Visits (· = n) c c' := by
  rcases hn : c.nodeType? n with _ | y
  · exact place (.slotOf hn h)
  · rw [slotOf_of_some hn] at h
    cases h
    exact refl

lemma bind (h : c.bind n y = (x, c')) : Visits (· = n) c c' := by
  rcases hn : c.nodeType? n with _ | z
  · exact place (.bind hn h)
  · rw [bind_of_some hn] at h
    cases h
    exact write hn (.assign (P := (· = x)) rfl y)

lemma setShape {shape : Shape} (h : c.setShape n shape = (x, c')) : Visits (· = n) c c' := by
  rcases hn : c.nodeType? n with _ | z
  · exact place (.setShape hn h)
  · rw [setShape_of_some hn] at h
    cases h
    exact write hn (.set (P := (· = x)) rfl shape)

lemma alloc (shape : Shape) : Visits N c (c.alloc shape).2 :=
  ⟨by simp [Context.alloc], fun _ _ h => h, fun _ _ _ => rfl,
    fun _ hx _ => c.types.get_alloc_of_lt shape hx, fun _ => regular_of_scopes rfl fun _ _ h => h⟩

/-- What a name stood for in `c` is given a slot if it has none. -/
lemma lookup (h : Visits N c c1) (hd : c.Declared d) (hs : c1.slotOf d = (x, c')) :
    Visits N c c' := by
  rcases hc : c1.nodeType? d with _ | z
  · have hp : Places d x c1 c' := .slotOf hc hs
    refine ⟨h.size_le.trans hp.size_le, fun n y hy => hp.keeps (h.nodeType n y hy),
      fun n hn hr => ?_,
      fun y hy hfree => (hp.old y (hy.trans_le h.size_le)).trans (h.old y hy hfree),
      fun n hr => (place hp).regular n (h.regular n hr)⟩
    rw [hp.nodeType?, if_neg]
    · exact h.same n hn hr
    · rintro rfl
      obtain ⟨y, hy⟩ := hr hd
      cases hc.symm.trans (h.nodeType n y hy)
  · rw [slotOf_of_some hc] at hs
    cases hs
    exact h

/-- A name gets a symbol, for a node that has a type. -/
lemma declare {name : String} {kind : SymbolKind} {l : Location} (hd : c.nodeType? d = some x)
    (h : Runs (Check.declare name kind d l) c () c') : Visits N c c' := by
  obtain ⟨id, sc, sc', unique, -, hsc, hinsert, rfl⟩ := Check.runs_declare h
  obtain ⟨hkind, hnode, hmem⟩ := Scope.insert?_cases hinsert
  refine ⟨le_rfl, fun _ _ h => h, fun _ _ _ => rfl, fun _ _ _ => rfl, fun n hr => ?_⟩
  rintro ⟨k, sc1, hk, hdecl⟩
  rw [scope?_modifyScope] at hk
  split at hk
  · obtain ⟨_, -, rfl⟩ := Option.map_eq_some_iff.mp hk
    rcases hdecl with ⟨symbol, hs, rfl⟩ | ⟨hobject, rfl⟩
    · rcases hmem symbol hs with hs | rfl
      · exact hr ⟨id, sc, hsc, .inl ⟨symbol, hs, rfl⟩⟩
      · exact ⟨x, hd⟩
    · exact hr ⟨id, sc, hsc, .inr ⟨hkind.symm.trans hobject, hnode.symm⟩⟩
  · exact hr ⟨k, sc1, hk, hdecl⟩

end Visits

lemma Annotates.visits (h : c.Annotates ns c') (hr : ∀ n ∈ ns, c.Regular n) :
    Visits (· ∈ ns) c c' := by
  have hstep : ∀ {ms n c1 c2}, Visits (· ∈ ms) c c1 → n ∉ ms → c.Regular n →
      Visits (· = n) c1 c2 → Visits (· ∈ n :: ms) c c2 := by
    intro ms n c1 c2 h1 hn hr h2
    refine (h1.trans h2 ?_).mono fun m hm => List.mem_cons.mpr hm.symm
    rintro _ rfl
    exact ⟨hn, hr⟩
  induction h with
  | refl => exact .refl
  | alloc _ shape ih =>
    exact ((ih hr).trans (.alloc (N := fun _ => False) shape) (by simp)).mono (by simp)
  | lookup _ hd hs ih =>
    have hlookup := (Visits.refl (N := fun _ => False)).lookup hd hs
    exact ((ih hr).trans hlookup (by simp)).mono (by simp)
  | slotOf _ hn hs ih =>
    obtain ⟨hr, hrest⟩ := List.forall_mem_cons.mp hr
    exact hstep (ih hrest) hn hr (.slotOf hs)
  | bind _ hn _ _ hb ih =>
    obtain ⟨hr, hrest⟩ := List.forall_mem_cons.mp hr
    exact hstep (ih hrest) hn hr (.bind hb)
  | setShape _ hn _ hs ih =>
    obtain ⟨hr, hrest⟩ := List.forall_mem_cons.mp hr
    exact hstep (ih hrest) hn hr (.setShape hs)
  | mono _ hsub ih => exact (ih fun n hn => hr n (hsub n hn)).mono hsub

end Context

/-! ### Variables that wait -/

/-- The variable is to be resolved on demand. -/
def Plan.Pends (plan : Plan) (v : VariableDecl) : Prop :=
  ∃ n q, plan.pending.get? n = some q ∧ q.decl = v

lemma Plan.Pends.of_add {plan : Plan} {v w : VariableDecl} {owner : NodeId} {x : Slot}
    (h : (plan.add w owner x).Pends v) : v = w ∨ plan.Pends v := by
  obtain ⟨n, q, hq, rfl⟩ := h
  rw [Plan.add, Table.get?_insert] at hq
  split at hq
  · cases hq
    exact .inl rfl
  · exact .inr ⟨n, q, hq, rfl⟩

lemma Plan.not_pends_empty {v : VariableDecl} : ¬ ({} : Plan).Pends v := by
  rintro ⟨n, q, hq, -⟩
  cases hq

namespace Resolving

open Context

variable {plan : Plan} {s s1 s2 s' : Resolving} {ms ns : List NodeId} {n d : NodeId} {c : Context}
  {x : Slot} {v w : VariableDecl}

/-- The node belongs to a variable that waits. -/
def Awaits (plan : Plan) (s : Resolving) (n : NodeId) : Prop :=
  ∃ v, plan.Pends v ∧ s.Waits v ∧ n ∈ v.nodes

/-- A state in which variables may be demanded: the nodes of those that wait are all different,
their values have no types, and their other nodes have, if at all, slots that exist. -/
structure Poised (plan : Plan) (s : Resolving) : Prop where
  nodup : ∀ v, plan.Pends v → s.Waits v → v.nodes.Nodup
  disjoint : ∀ v w, plan.Pends v → s.Waits v → plan.Pends w → s.Waits w → v.id ≠ w.id →
    v.nodes.Disjoint w.nodes
  untyped : ∀ v, plan.Pends v → s.Waits v → ∀ n ∈ Expr.nodes? v.value, s.nodeType? n = none
  regular : ∀ n, s.Awaits plan n → s.Regular n
  lt : ∀ n x, s.Awaits plan n → s.nodeType? n = some x → x < s.types.size

/-- The nodes have no types yet, no names stand for them, and they do not belong to a variable that
waits. -/
def Unvisited (plan : Plan) (ns : List NodeId) (s : Resolving) : Prop :=
  ∀ n ∈ ns, s.nodeType? n = none ∧ ¬ s.Awaits plan n ∧ ¬ s.Declared n

/-- `s'` is what became of `s` when the nodes in `ns` were given types, and with them those of some
variables that waited. -/
structure Roams (plan : Plan) (ns : List NodeId) (s s' : Resolving) : Prop where
  start : s.Poised plan
  poised : s'.Poised plan
  waits : ∀ v, s'.Waits v → s.Waits v
  resolving : s'.resolving = s.resolving
  visits : Visits (fun n => n ∈ ns ∨ s.Awaits plan n ∧ ¬ s'.Awaits plan n) s.toContext s'.toContext

lemma Awaits.mono (h : s'.Awaits plan n) (hw : ∀ v, s'.Waits v → s.Waits v) : s.Awaits plan n := by
  obtain ⟨v, hp, hv, hn⟩ := h
  exact ⟨v, hp, hw v hv, hn⟩

/-- A state stays poised if the nodes of variables that wait keep what they have. -/
lemma Poised.next (h : s.Poised plan) (hw : ∀ v, s'.Waits v → s.Waits v)
    (hn : ∀ n, s'.Awaits plan n → s'.nodeType? n = s.nodeType? n)
    (hsize : s.types.size ≤ s'.types.size) (hr : ∀ n, s.Regular n → s'.Regular n) :
    s'.Poised plan := by
  refine ⟨fun v hp hv => h.nodup v hp (hw v hv), fun v w hp hv hp' hv' =>
    h.disjoint v w hp (hw v hv) hp' (hw w hv'), fun v hp hv n hm => ?_,
    fun n ha => hr n (h.regular n (ha.mono hw)), fun n x ha hx => ?_⟩
  · have hm' : n ∈ v.nodes := List.mem_cons_of_mem _ (List.mem_append_right _ hm)
    exact (hn n ⟨v, hp, hv, hm'⟩).trans (h.untyped v hp (hw v hv) n hm)
  · rw [hn n ha] at hx
    exact (h.lt n x (ha.mono hw) hx).trans_le hsize

namespace Roams

lemma refl (h : s.Poised plan) : Roams plan [] s s :=
  ⟨h, h, fun _ h => h, rfl, .refl⟩

lemma mono (h : Roams plan ms s s') (hsub : ∀ n ∈ ms, n ∈ ns) : Roams plan ns s s' :=
  { h with visits := h.visits.mono fun n => Or.imp_left (hsub n) }

/-- A step on the context alone. -/
lemma of_visits {N : NodeId → Prop} (h : s.Poised plan) (hc : Visits N s.toContext c)
    (hN : ∀ n, N n → ¬ s.Awaits plan n) (hns : ∀ n, N n → n ∈ ns) :
    Roams plan ns s { s with toContext := c } := by
  refine ⟨h, h.next (fun _ h => h) (fun n ha => ?_) hc.size_le hc.regular, fun _ h => h, rfl,
    hc.mono fun n hn => .inl (hns n hn)⟩
  exact hc.same n (fun hn => hN n hn ha) (h.regular n ha)

/-- A node that belongs to a variable that still waits has the slot that it had. -/
lemma same_awaits (h : Roams plan ms s s1) (hms : ∀ n ∈ ms, ¬ s.Awaits plan n)
    (hn : s1.Awaits plan n) : s1.nodeType? n = s.nodeType? n := by
  have hn' := hn.mono h.waits
  exact h.visits.same n (not_or.mpr ⟨fun hm => hms n hm hn', fun h => h.2 hn⟩)
    (h.start.regular n hn')

lemma trans (hfresh : Unvisited plan (ms ++ ns) s) (hdisjoint : ms.Disjoint ns)
    (h1 : Roams plan ms s s1) (h2 : Roams plan ns s1 s2) : Roams plan (ms ++ ns) s s2 := by
  refine ⟨h1.start, h2.poised, fun v hv => h1.waits v (h2.waits v hv),
    h2.resolving.trans h1.resolving, (h1.visits.trans h2.visits ?_).mono ?_⟩
  · rintro n (hn | ⟨hn, -⟩)
    · obtain ⟨-, hawaits, hdecl⟩ := hfresh n (List.mem_append_right _ hn)
      exact ⟨not_or.mpr ⟨fun hm => hdisjoint hm hn, fun h => hawaits h.1⟩, fun h => absurd h hdecl⟩
    · have hn' := hn.mono h1.waits
      refine ⟨not_or.mpr ⟨fun hm => ?_, fun h => h.2 hn⟩, h1.start.regular n hn'⟩
      exact (hfresh n (List.mem_append_left _ hm)).2.1 hn'
  · rintro n ((hm | ⟨ha, hna⟩) | (hn | ⟨ha, hna⟩))
    · exact .inl (List.mem_append_left _ hm)
    · exact .inr ⟨ha, fun h => hna (h.mono h2.waits)⟩
    · exact .inl (List.mem_append_right _ hn)
    · exact .inr ⟨ha.mono h1.waits, hna⟩

lemma fresh (hfresh : Unvisited plan ns s) (h : Roams plan ms s s') (hdisjoint : ms.Disjoint ns) :
    Unvisited plan ns s' := by
  intro n hn
  obtain ⟨hnone, hawaits, hdecl⟩ := hfresh n hn
  have hregular : s.Regular n := fun h => absurd h hdecl
  have hnone' : s'.nodeType? n = none := by
    rw [h.visits.same n (not_or.mpr ⟨fun hm => hdisjoint hm hn, fun h => hawaits h.1⟩) hregular]
    exact hnone
  refine ⟨hnone', fun ha => hawaits (ha.mono h.waits), fun hd => ?_⟩
  obtain ⟨x, hx⟩ := h.visits.regular n hregular hd
  cases hnone'.symm.trans hx

/-- Slots that were allocated by one step are not written by the next: what waits had its slots
before, and the nodes at hand have none. -/
lemma recent (hfresh : Unvisited plan (ms ++ ns) s) (hdisjoint : ms.Disjoint ns)
    (h1 : Roams plan ms s s1) (h2 : Roams plan ns s1 s2) :
    ∀ x, s.types.size ≤ x → x < s1.types.size → s2.types.get x = s1.types.get x := by
  intro x hle hlt
  refine h2.visits.old x hlt ?_
  rintro n (hn | ⟨ha, -⟩) hx
  · have hns : Unvisited plan ns s := fun n hn => hfresh n (List.mem_append_right _ hn)
    cases (fresh hns h1 hdisjoint n hn).1.symm.trans hx
  · rw [h1.same_awaits (fun n hm => (hfresh n (List.mem_append_left _ hm)).2.1) ha] at hx
    exact absurd (h1.start.lt n x (ha.mono h1.waits) hx) (Nat.not_lt.mpr hle)

lemma lookup (h : Roams plan ns s s1) (hd : s.Declared d) (hs : s1.slotOf d = (x, c)) :
    Roams plan ns s { s1 with toContext := c } := by
  have hslot : Visits (· = d) s1.toContext c := .slotOf hs
  refine ⟨h.start, h.poised.next (fun _ h => h) (fun n ha => ?_) hslot.size_le hslot.regular,
    h.waits, h.resolving, h.visits.lookup hd hs⟩
  by_cases hn : n = d
  · subst hn
    have ha1 : s1.Awaits plan n := ha
    obtain ⟨y, hy⟩ := h.start.regular n (ha1.mono h.waits) hd
    exact (hslot.nodeType n y (h.visits.nodeType n y hy)).trans (h.visits.nodeType n y hy).symm
  · exact hslot.same n hn (h.poised.regular n ha)

lemma writes (h : Roams plan ns s s1) {P : Slot → Prop} (hw : Writes P s1.toContext c)
    (hP : ∀ x, P x → s.types.size ≤ x ∨
      ∃ n, (n ∈ ns ∨ s.Awaits plan n ∧ ¬ s1.Awaits plan n) ∧ s.nodeType? n = some x) :
    Roams plan ns s { s1 with toContext := c } := by
  refine ⟨h.start, ?_, h.waits, h.resolving, h.visits.writes hw hP⟩
  refine h.poised.next (fun _ h => h) (fun n _ => hw.nodeType? n) hw.size.ge fun n hr => ?_
  exact Visits.regular_of_scopes (by rw [hw.rest]) (fun m y hy => (hw.nodeType? m).trans hy) hr

end Roams

/-- What is given types, as a frame for expressions. -/
def roaming (plan : Plan) : Frame where
  Sound := Poised plan
  Fresh := Unvisited plan
  Advances := Roams plan
  Loose s _ x := s.types.size ≤ x
  sound h := h.poised
  size_le h := h.visits.size_le
  nodeType h := h.visits.nodeType _ _
  untyped h hn := (h _ hn).1
  fresh_mono h hsub n hn := h n (hsub n hn)
  fresh hfresh h := Roams.fresh hfresh h
  refl := .refl
  trans hfresh hdisjoint h1 h2 := .trans hfresh hdisjoint h1 h2
  mono h := h.mono
  recent _ hfresh hdisjoint h1 h2 := Roams.recent hfresh hdisjoint h1 h2
  place {_ n _ _} hs hfresh hp := .of_visits hs (.place hp)
    (fun _ h => h ▸ (hfresh n List.mem_cons_self).2.1) fun _ h => List.mem_singleton.mpr h
  declared _ hd h hs := h.lookup hd hs
  writes h hw := h.writes hw fun _ hx => .inl hx
  loose_place h _ hx _ := h.visits.size_le.trans hx
  loose_writes _ _ hx := hx
  loose_before h hx := h.visits.size_le.trans hx
  loose_after _ hx _ := hx

/-! ### Resolving a variable -/

/-- While a variable is under way, its nodes do not wait any longer. -/
lemma not_awaits_begun (h : s.Poised plan) (hv : plan.Pends v) (hw : s.Waits v)
    (hn : n ∈ v.nodes) : ¬ (s.begun v).Awaits plan n := by
  rintro ⟨w, hp, hw', hm⟩
  have hdone := waits_begun.mp hw'
  refine h.disjoint v w hv hw hp hdone.of_done (fun heq => ?_) hn hm
  exact hdone.1 (by rw [← heq]; exact List.mem_cons_self)

/-- The variable gets its slot, with its annotation in it. -/
lemma visits_prepares {c c' : Context} {y : Slot} (hnd : v.nodes.Nodup)
    (hr : ∀ n ∈ v.nodes, c.Regular n) (h : Resolve.Prepares v c y c') :
    Visits (· ∈ v.id :: TypeExpr.nodes? v.type) c c' ∧ c'.nodeType? v.id = some y ∧
      (c.types.size ≤ y ∨ c.nodeType? v.id = some y) := by
  obtain ⟨c1, hslot, h⟩ := h
  have h1 : Visits (· = v.id) c c1 := .slotOf hslot
  have hnode : c1.nodeType? v.id = some y := nodeType?_of_slotOf hslot
  have hy : c.types.size ≤ y ∨ c.nodeType? v.id = some y := by
    rcases hc : c.nodeType? v.id with _ | z
    · rw [slotOf_of_none hc] at hslot
      cases hslot
      exact .inl le_rfl
    · rw [slotOf_of_some hc] at hslot
      cases hslot
      exact .inr rfl
  rcases h with ⟨-, rfl⟩ | ⟨type, declared, c2, htype, hresolve, rfl⟩
  · exact ⟨h1.mono (by simp), hnode, hy⟩
  · rw [VariableDecl.nodes, htype] at hnd hr
    rw [htype]
    obtain ⟨hnot, hnd⟩ := List.nodup_cons.mp hnd
    have hr' : ∀ n ∈ type.nodes, c.Regular n := fun n hn =>
      hr n (List.mem_cons_of_mem _ (List.mem_append_left _ hn))
    have h2 : Visits (· ∈ type.nodes) c1 c2 :=
      (TypeExpr.annotates_resolve (List.nodup_append'.mp hnd).1 hresolve).visits fun n hn =>
        h1.regular n (hr' n hn)
    have h3 : Visits (· ∈ v.id :: type.nodes) c c2 := by
      refine (h1.trans h2 fun n hn => ⟨?_, hr' n hn⟩).mono fun n => List.mem_cons.mpr
      rintro rfl
      exact hnot (List.mem_append_left _ hn)
    refine ⟨h3.writes (.assign (P := (· = y)) rfl declared) ?_, h2.nodeType _ _ hnode, hy⟩
    rintro _ rfl
    exact hy.imp_right fun h => ⟨v.id, List.mem_cons_self, h⟩

end Resolving

namespace Resolve

open Context Resolving

variable {plan : Plan} {demand : NodeId → Resolve Unit} {s s1 s' : Resolving} {v : VariableDecl}

/-- A variable that has got its slot is under way. -/
lemma poised_begun {c : Context} (hs : s.Poised plan) (hv : plan.Pends v) (hw : s.Waits v)
    (h : Visits (· ∈ v.id :: TypeExpr.nodes? v.type) s.toContext c) :
    ({ s with toContext := c }.begun v).Poised plan := by
  have hwaits : ∀ w, (s.begun v).Waits w → s.Waits w := fun w hw => (waits_begun.mp hw).of_done
  refine hs.next hwaits (fun n ha => ?_) h.size_le h.regular
  have ha1 : (s.begun v).Awaits plan n := ha
  refine h.same n (fun hn => ?_) (hs.regular n (ha1.mono hwaits))
  exact not_awaits_begun hs hv hw (List.mem_append_left (Expr.nodes? v.value) hn) ha

/-- Then its value is to be given types. -/
lemma unvisited_value {c : Context} (hs : s.Poised plan) (hv : plan.Pends v) (hw : s.Waits v)
    (h : Visits (· ∈ v.id :: TypeExpr.nodes? v.type) s.toContext c) :
    Unvisited plan (Expr.nodes? v.value) ({ s with toContext := c }.begun v) := by
  intro n hn
  have hmem : n ∈ v.nodes := List.mem_append_right (v.id :: TypeExpr.nodes? v.type) hn
  have hregular : s.Regular n := hs.regular n ⟨v, hv, hw, hmem⟩
  have hnd := hs.nodup v hv hw
  rw [VariableDecl.nodes, ← List.cons_append] at hnd
  have hnone : c.nodeType? n = none :=
    (h.same n (fun hm => (List.nodup_append'.mp hnd).2.2 hm hn) hregular).trans
      (hs.untyped v hv hw n hn)
  have hnot : ¬ (s.begun v).Awaits plan n := not_awaits_begun hs hv hw hmem
  refine ⟨hnone, hnot, fun hd => ?_⟩
  obtain ⟨x, hx⟩ := h.regular n hregular hd
  cases hnone.symm.trans hx

lemma not_awaits_settle {c : Context} {ns : List NodeId} {n : NodeId} (hs : s.Poised plan)
    (hv : plan.Pends v) (hw : s.Waits v)
    (h : Roams plan ns ({ s with toContext := c }.begun v) s1) (hn : n ∈ v.nodes) :
    ¬ (settle v.id s1).Awaits plan n := fun ha =>
  not_awaits_begun hs hv hw hn
    ((ha.mono (s := s1) fun _ => waits_of_settle h.resolving).mono h.waits)

/-- A variable that was under way is settled: what belongs to it does not wait any longer. -/
lemma roams_settle {c : Context} (hs : s.Poised plan) (hv : plan.Pends v) (hw : s.Waits v)
    (h1 : Visits (· ∈ v.id :: TypeExpr.nodes? v.type) s.toContext c)
    (h2 : Roams plan (Expr.nodes? v.value) ({ s with toContext := c }.begun v) s1) :
    Roams plan [] s (settle v.id s1) := by
  have hwaits1 : ∀ w, (settle v.id s1).Waits w → s1.Waits w := fun w => waits_of_settle h2.resolving
  have hwaits : ∀ w, s1.Waits w → s.Waits w := fun w hw => (waits_begun.mp (h2.waits w hw)).of_done
  have hnd := hs.nodup v hv hw
  rw [VariableDecl.nodes, ← List.cons_append] at hnd
  have hdisjoint := (List.nodup_append'.mp hnd).2.2
  have hresolving : (settle v.id s1).resolving = s.resolving := by
    rw [settle, h2.resolving]
    rfl
  refine ⟨hs, h2.poised.next hwaits1 (fun _ _ => rfl) le_rfl fun _ h => h,
    fun w hw => hwaits w (hwaits1 w hw), hresolving, (h1.trans h2.visits ?_).mono ?_⟩
  · rintro n (hn | ⟨ha, -⟩)
    · refine ⟨fun hm => hdisjoint hm hn, hs.regular n ⟨v, hv, hw, ?_⟩⟩
      exact List.mem_append_right (v.id :: TypeExpr.nodes? v.type) hn
    · refine ⟨fun hm => ?_, hs.regular n (ha.mono fun w hw => (waits_begun.mp hw).of_done)⟩
      exact not_awaits_begun hs hv hw (List.mem_append_left (Expr.nodes? v.value) hm) ha
  · intro n hn
    have hmem : n ∈ v.nodes ∨ ({ s with toContext := c }.begun v).Awaits plan n ∧
        ¬ s1.Awaits plan n := by
      rw [VariableDecl.nodes, ← List.cons_append, List.mem_append, or_assoc]
      exact hn
    rcases hmem with hmem | ⟨ha, hna⟩
    · exact .inr ⟨⟨v, hv, hw, hmem⟩, not_awaits_settle hs hv hw h2 hmem⟩
    · exact .inr ⟨ha.mono fun w hw => (waits_begun.mp hw).of_done, fun h => hna (h.mono hwaits1)⟩

/-- **A variable that waits is resolved**: types are given to its nodes, and to those of variables
that are demanded meanwhile. -/
lemma roams_variableType (hd : Demands (roaming plan) demand) (hs : s.Poised plan)
    (hv : plan.Pends v) (hw : s.Waits v)
    (h : Runs (variableType plan demand v) (s.begun v) () s1) :
    Roams plan [] s (settle v.id s1) ∧ ∃ y, s1.nodeType? v.id = some y := by
  obtain ⟨y, c, hprepares, h⟩ := runs_variableType h
  obtain ⟨h1, hnode, hy⟩ := visits_prepares (hs.nodup v hv hw)
    (fun n hn => hs.regular n ⟨v, hv, hw, hn⟩) hprepares
  have hs1 := poised_begun hs hv hw h1
  have hfresh := unvisited_value hs hv hw h1
  rcases h with ⟨-, -, rfl⟩ | ⟨e, found, s2, hvalue, he, h⟩
  · exact ⟨roams_settle hs hv hw h1 ((Roams.refl hs1).mono (by simp)), y, hnode⟩
  · have hnodes : Expr.nodes? v.value = e.nodes := by rw [hvalue]; rfl
    have hnd := hs.nodup v hv hw
    rw [VariableDecl.nodes, ← List.cons_append, hnodes] at hnd
    have hres := resolves_expr hd ⟨hs1, (List.nodup_append'.mp hnd).2.1, hnodes ▸ hfresh⟩ he
    rcases h with ⟨-, c3, hcheck, rfl⟩ | ⟨-, rfl⟩
    · have h3 : Roams plan e.nodes _ _ := advances_checkAssignable hres hcheck
      exact ⟨roams_settle hs hv hw h1 (hnodes ▸ h3), y, h3.visits.nodeType _ _ hnode⟩
    · have h2 : Roams plan e.nodes _ _ := hres.advances
      have h3 : Roams plan [] s (settle v.id s2) := roams_settle hs hv hw h1 (hnodes ▸ h2)
      refine ⟨h3.writes (c := s2.assign y found) (.assign (P := (· = y)) rfl found) ?_, y,
        h2.visits.nodeType _ _ hnode⟩
      rintro _ rfl
      refine hy.imp_right fun h => ⟨v.id, .inr ⟨⟨v, hv, hw, List.mem_cons_self⟩, ?_⟩, h⟩
      exact not_awaits_settle hs hv hw h2 List.mem_cons_self

lemma roams_variableDecl (hd : Demands (roaming plan) demand) (hs : s.Poised plan)
    (hv : plan.Pends v) (h : Runs (variableDecl plan demand v) s () s') : Roams plan [] s s' := by
  rcases runs_variableDecl h with ⟨-, rfl⟩ | ⟨hnew, hnew', s1, hrun, h⟩
  · exact .refl hs
  · obtain ⟨h1, y, hy⟩ := roams_variableType hd hs hv ⟨hnew, hnew'⟩ hrun
    rcases h with ⟨-, rfl⟩ | ⟨-, c, hdecl, rfl⟩
    · exact h1
    · have h2 : Visits (fun _ => False) (settle v.id s1).toContext c := .declare hy hdecl
      exact h1.trans (by simp [Unvisited]) (by simp) (.of_visits h1.poised h2 (by simp) (by simp))

lemma roams_demandWithin : ∀ depth : Nat, Demands (roaming plan) (demandWithin plan depth) := by
  intro depth
  induction depth with
  | zero =>
    intro s s' n hs h
    simp only [demandWithin, runs_pure] at h
    rw [← h.2]
    exact .refl hs
  | succ depth ih =>
    intro s s' n hs h
    rcases runs_demandWithin h with ⟨rfl, -⟩ | ⟨q, scope, depth', s1, hdepth, hq, -, hv, rfl⟩
    · exact .refl hs
    · cases hdepth
      -- the scopes that are open make no difference here
      have h1 := roams_variableDecl (s := { s with stack := s.around scope }) ih
        ⟨hs.nodup, hs.disjoint, hs.untyped, hs.regular, hs.lt⟩ ⟨n, q, hq, rfl⟩ hv
      have hp := h1.poised
      have hvisits := h1.visits
      exact ⟨hs, ⟨hp.nodup, hp.disjoint, hp.untyped, hp.regular, hp.lt⟩, h1.waits, h1.resolving,
        ⟨hvisits.size_le, hvisits.nodeType, hvisits.same, hvisits.old, hvisits.regular⟩⟩

end Resolve

end Sema
