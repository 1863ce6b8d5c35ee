import Sema.Proofs.Expressions
import Sema.Proofs.Lexical

/-!
Variables on demand. A variable is under way while its value is resolved, and other variables are
demanded meanwhile. When it is done, its slot holds what was found, and leads to settled slots only.
If no variable is needed for its own value, nothing has looked at its slot before that.
-/

namespace Sema

namespace Outlook

open Sema.Action Context Resolving Resolve

variable {G : Outlook} {Q : Slot → Prop} {s s1 s' : Resolving} {x y : Slot} {c : Context}
  {v w : VariableDecl} {k : Nat} {demand : NodeId → Resolve Unit}

lemma eq_of_id (hv : v ∈ G.program.variables) (hw : w ∈ G.program.variables) (h : w.id = v.id) :
    w = v :=
  G.covers.unique v hv w hw h

/-- A slot that has ceased to hold a guess is that of the variable which has been taken up. -/
lemma Guessed.of_not (h : G.Guessed s x) (h' : ¬ G.Guessed s' x)
    (hp : ∀ w ∈ G.program.variables, w ≠ v → G.Pends s w → G.Pends s' w) :
    v.type = none ∧ G.start.nodeType? v.id = some x := by
  obtain ⟨w, hw, htype, hpends, hx⟩ := h
  by_cases heq : w = v
  · exact heq ▸ ⟨htype, hx⟩
  · exact absurd ⟨w, hw, htype, hp w hw heq hpends, hx⟩ h'

namespace Stage

lemma restack (h : G.Stage Q s) (stack : List ScopeId) :
    G.Stage Q { s with stack } ∧ G.Later Q s Q { s with stack } :=
  h.retype (c := { s.toContext with stack }) (footing_of_stack h.footing) h.lettered le_rfl
    (fun _ _ h => h) rfl rfl (fun _ => .inl) fun _ _ => rfl

/-- The slot of a variable that waits holds what it held at the beginning. -/
lemma get_of_waits (h : G.Stage Q s) (hv : v ∈ G.program.variables) (hw : s.Waits v)
    (hx : G.start.nodeType? v.id = some x) : s.types.get x = G.start.types.get x := by
  rcases h.footing.kept trivial x (G.starts.orderly.typed _ x hx).2 with
    hstays | ⟨u, hu, hwaits, n, hn, hnx, -⟩
  · exact hstays.eq G.distinct.unambiguous
  · obtain rfl := Setting.eq_of_slot hv hx hnx
    have heq : u = v := by
      by_contra hne
      exact G.groundwork.apart u hu v hv hne hn List.mem_cons_self
    exact absurd hw (heq ▸ hwaits)

/-- **A variable is put under way.** -/
lemma begin (h : G.Stage Q s) (hv : v ∈ G.program.variables) (hw : s.Waits v)
    (hprepares : Prepares v s.toContext y c) : G.Stage Q ({ s with toContext := c }.begun v) := by
  have hp : Prepared G.groundwork v s y c :=
    prepared h.footing (G.covers.nodup v hv) (.inl ⟨hv, hw⟩) hprepares
  have hsame := same_prepares hprepares
  have hbare : v.type = none → c = s.toContext := by
    intro htype
    obtain ⟨z, hz, -⟩ := h.footing.declared hv List.mem_cons_self
    obtain ⟨c1, hslot, ⟨-, rfl⟩ | ⟨type, _, _, htype', -⟩⟩ := hprepares
    · rw [slotOf_of_some hz] at hslot
      exact (Prod.mk.inj hslot).2.symm
    · cases htype.symm.trans htype'
  have hl : G.Later Q s Q ({ s with toContext := c }.begun v) := by
    by_cases htype : v.type = none
    · obtain rfl := hbare htype
      exact .of_kept le_rfl (fun _ _ h => h) (fun w _ _ hw => ⟨hw.1, hw.2.imp_right fun hn hm =>
        hn (List.mem_cons_of_mem _ hm)⟩) (fun _ _ h => h) fun _ _ => rfl
    · -- an annotated variable holds no guess, be it resolved or only begun
      refine (Later.of_advances hp.advances h fun _ => .inl).trans (.of_kept le_rfl (fun _ _ h => h)
        (fun w hw' hbare hw => ⟨fun hm => ?_, hw.2.imp_right fun hn hm =>
          hn (List.mem_cons_of_mem _ hm)⟩) (fun _ _ h => h) fun _ _ => rfl)
      exact (List.mem_cons.mp hm).elim (fun heq => htype (eq_of_id hv hw' heq ▸ hbare)) hw.1
  refine ⟨h.same hsame.scopes hsame.nodeScopes hl.size_le hl.nodeType hl.high,
    footing_begun hp.advances.footing, hp.advances.lettered trivial h.lettered,
    fun n hn => (List.mem_cons.mp hn).elim (· ▸ hw.1) (h.apart n),
    fun x hq => (h.reserved x hq).imp_right fun hlt => hlt.trans_le hl.size_le,
    fun x hlt hg => ?_, fun hstrict w hw hr e he => (h.sound hstrict w hw hr e he).later hl⟩
  by_cases hg' : G.Guessed s x
  · obtain ⟨htype, hx⟩ := hg'.of_not hg fun w hw' hne hp => ⟨hp.1, hp.2.imp_right fun hn hm =>
      (List.mem_cons.mp hm).elim (fun heq => hne (eq_of_id hv hw' heq)) hn⟩
    obtain rfl := hbare htype
    have hget := h.get_of_waits hv hw hx
    refine settled_of_leads ⟨hlt.trans_le h.footing.le, hg, fun hq =>
      absurd hlt (Nat.not_lt.mpr (h.reserved x hq).1), fun _ => ⟨x, hget.symm⟩⟩ fun z hz => ?_
    obtain ⟨hlow, hz⟩ := leads_start (hget ▸ hz)
    exact hl.settled z (h.low z hlow fun ⟨w, hw, _, _, hwz⟩ => hz w hw hwz)
  · exact hl.settled x (h.low x hlt hg')

/-- **A variable is done**, after its slot has been filled if it has no annotation. -/
lemma settle {l : List NodeId} (h : G.Stage Q s) (hv : v ∈ G.program.variables)
    (hresolving : s.resolving = v.id :: l)
    (hf : Footing G.groundwork (settle v.id { s with toContext := c }))
    (hl : Lettered G.groundwork { s with toContext := c }) (hnot : v.id ∉ l)
    (hfed : G.Fed Q (· = y) s c)
    (hbare : v.type = none → G.start.nodeType? v.id = some y ∧ G.Backed Q s (c.types.get y))
    (hkept : v.type ≠ none → c.types.get y = s.types.get y)
    (hsound : G.strict → ∀ e, v.value = some e → G.Assures Q s e.nodes fun c => e.Sound c) :
    G.Stage Q (Resolve.settle v.id { s with toContext := c }) := by
  have htail : (Resolve.settle v.id { s with toContext := c }).resolving = l := by
    rw [Resolve.settle, hresolving]
    rfl
  have hpends : ∀ w, G.Pends (Resolve.settle v.id { s with toContext := c }) w → G.Pends s w := by
    rintro w ⟨hres, hway⟩
    obtain ⟨hne, hres⟩ := not_or.mp (mt List.mem_cons.mpr hres)
    refine ⟨hres, hway.imp_right fun hn hm => ?_⟩
    rw [hresolving] at hm
    exact (List.mem_cons.mp hm).elim hne (htail ▸ hn)
  have hget : ∀ x, (x = y → v.type ≠ none) → c.types.get x = s.types.get x := by
    intro x hx
    by_cases heq : x = y
    · exact heq ▸ hkept (hx heq)
    · exact hfed.writes.get x heq
  have hn : ∀ n x, s.nodeType? n = some x → c.nodeType? n = some x := fun n x hx => by
    rwa [hfed.writes.rest]
  have hlater : G.Later Q { s with toContext := c } Q
      (Resolve.settle v.id { s with toContext := c }) :=
    .of_kept le_rfl (fun _ _ h => h) (fun w _ _ => hpends w) (fun _ _ h => h) fun _ _ => rfl
  have hsettled : ∀ x, G.Settled Q s x → G.Settled Q _ x := fun x hx =>
    hlater.settled x (hfed.settled (fun _ h => h) hx)
  refine ⟨h.same (by rw [hfed.writes.rest]; rfl) (by rw [hfed.writes.rest]; rfl)
    hfed.writes.size.ge hn fun x hle hx => ⟨hx.free, hget x fun heq htype => ?_⟩, hf, hl,
    fun n hm hr => ?_, fun x hq => (h.reserved x hq).imp_right fun hlt => hfed.writes.size ▸ hlt,
    fun x hlt hg => ?_, fun hstrict w hw hr e he => ?_⟩
  · exact absurd (G.starts.orderly.typed _ y (hbare htype).1).2 (Nat.not_lt.mpr (heq ▸ hle))
  · rw [htail] at hm
    exact (List.mem_cons.mp hr).elim (fun heq => hnot (heq ▸ hm))
      (h.apart n (hresolving ▸ List.mem_cons_of_mem _ hm))
  · by_cases hg' : G.Guessed s x
    · obtain ⟨htype, hx⟩ := hg'.of_not hg fun w hw hne hp => ⟨fun hm => (List.mem_cons.mp hm).elim
        (fun heq => hne (eq_of_id hv hw heq)) hp.1, hp.2.imp_right fun hn hm =>
          hn (hresolving ▸ List.mem_cons_of_mem _ (htail ▸ hm))⟩
      obtain ⟨hy, hb⟩ := hbare htype
      obtain rfl := Option.some.inj (hx.symm.trans hy)
      exact settled_of_leads ⟨hlt.trans_le (h.footing.le.trans hfed.writes.size.ge), hg, fun hq =>
        absurd hlt (Nat.not_lt.mpr (h.reserved x hq).1), hb.original⟩ fun z hz =>
        hsettled z (hb.leads z hz)
    · exact hsettled x (h.low x hlt hg')
  · -- nothing that is settled has led to the slot, as the variable was pending
    have hlater : G.Later Q s Q (Resolve.settle v.id { s with toContext := c }) :=
      .of_kept hfed.writes.size.ge hn (fun w _ _ => hpends w) (fun _ _ h => h) fun x hx =>
        hget x fun heq htype =>
          hx.known ⟨v, hv, htype, ⟨h.apart v.id (hresolving ▸ List.mem_cons_self),
          .inl hstrict⟩, heq ▸ (hbare htype).1⟩
    refine Assures.later ?_ hlater
    rcases List.mem_cons.mp hr with heq | hr
    · exact hsound hstrict e (eq_of_id hv hw heq ▸ he)
    · exact h.sound hstrict w hw hr e he

end Stage

/-- **A variable that waits is resolved**, and what else it needs. -/
lemma stage_variable (hd : G.Answers k demand) (hs : G.Stage Q s) (hv : v ∈ G.program.variables)
    (hw : s.Waits v) (hfew : (G.plan.waiting (s.begun v)).card ≤ k) (hbelow : G.Below s v)
    (h : Runs (variableType G.plan demand v) (s.begun v) () s1) :
    G.Stage Q (settle v.id s1) := by
  have hnd := G.covers.nodup v hv
  have hfresh : Fresh G.groundwork.vars (Expr.nodes? v.value) (s.done v) := fun n hn =>
    ⟨hs.footing.waiting v hv hw n hn, fun w hw' hwaits hm => G.covers.apart v hv w hw'
      (fun heq => hwaits.1 (heq ▸ List.mem_cons_self)) hn hm⟩
  have ha := (settles_variableType hd.advances hs.footing hnd (.inl ⟨hv, hw⟩) hfresh h).advances
  have hlettered : Lettered G.groundwork (settle v.id s1) := ha.lettered trivial hs.lettered
  obtain ⟨y, c, hprepares, h⟩ := runs_variableType h
  have hp : Prepared G.groundwork v s y c := prepared hs.footing hnd (.inl ⟨hv, hw⟩) hprepares
  have hs1 := hs.begin hv hw hprepares
  obtain ⟨z, hz, hstart, hlow⟩ := hs1.footing.declared hv List.mem_cons_self
  obtain rfl : y = z := Option.some.inj (hp.nodeType.symm.trans hz)
  rcases h with ⟨hvalue, htype, rfl⟩ | ⟨e, found, s2, hvalue, he, h⟩
  · exact hs1.settle (y := y) hv rfl ha.footing hlettered hw.2 .refl
      (fun hnone => by simp [hnone] at htype) (fun _ => rfl) fun _ e he => by simp [hvalue] at he
  · rw [VariableDecl.nodes, ← List.cons_append, hvalue] at hnd
    rw [hvalue] at hfresh
    obtain ⟨-, hnd, hdisjoint⟩ := List.nodup_append'.mp hnd
    have hawaits : G.Awaits k Q e.nodes e.names ({ s with toContext := c }.begun v) := by
      refine ⟨hs1, fun n hn => ⟨hp.untyped n (fun hm => hdisjoint hm hn) (hfresh n hn).1,
        fun w hw hwaits => (hfresh n hn).2 w hw (waits_begun.mp hwaits)⟩, hnd, hfew,
        fun w hw hname hstrict u hu hm => ?_⟩
      have hrefers : G.program.Refers v w := ⟨hv, hw, e, hvalue, hname⟩
      rcases List.mem_cons.mp hm with heq | hm
      · exact .single (eq_of_id hv hu heq ▸ hrefers)
      · exact (hbelow hstrict u hu hm).tail hrefers
    have hwalk := walked_expr hd hawaits he
    have ha2 := footprint_expr hd.advances hawaits.ahead he
    rcases h with ⟨htype, c2, hcheck, rfl⟩ | ⟨htype, rfl⟩
    · have hy : G.Settled Q ({ s with toContext := c }.begun v) y :=
        hs1.low y hlow (Stage.not_guessed_of_key hstart fun w hw hbare heq => by
          obtain rfl := eq_of_id hv hw heq
          simp [hbare] at htype)
      obtain ⟨-, hs2, hk, -⟩ := checked hwalk ha2 hs1.lettered (fun P hnew hsP =>
        (hs1.backed ha2 hy hnew hsP).backed) hcheck
      exact hs2.settle (y := y) hv ha2.resolving ha.footing hlettered hw.2 .refl
        (fun hnone => by simp [hnone] at htype) (fun _ => rfl) fun _ e' he' => by
          obtain rfl := Option.some.inj (hvalue.symm.trans he')
          exact hk.obeys
    · obtain ⟨hs2, hk⟩ := hwalk.known
      have hget : (s2.assign y found).types.get y = s2.types.get found :=
        (TypeStore.get_assign _ _ _ _ (hlow.trans_le hs2.footing.le)).trans (if_pos rfl)
      exact hs2.settle hv ha2.resolving ha.footing hlettered hw.2
        (.assign .refl rfl hk.settled.backed)
        (fun _ => ⟨hstart, hget ▸ hk.settled.backed⟩) (absurd htype) fun _ e' he' => by
          obtain rfl := Option.some.inj (hvalue.symm.trans he')
          exact hk.obeys

/-- **Demands are answered**, as long as no more variables wait than there may be demands inside
each other. -/
theorem answers_demandWithin : ∀ k : Nat, G.Answers k (demandWithin G.plan k) := by
  intro k
  induction k using Nat.strong_induction_on with
  | h k ih =>
    refine ⟨advances_demandWithin G.covers _, fun {Q s s' d} hs hfew hbelow hr => ?_⟩
    have htaken : ∀ v ∈ G.program.variables, v.type = none → v.id = d →
        d ∈ s.resolved ∨ d ∈ s.resolving → ¬ G.Pends s v := by
      rintro v hv htype rfl hd ⟨hres, hway⟩
      have hd := hd.resolve_left hres
      exact hway.elim (fun hstrict =>
        G.acyclic hstrict v hv htype (hbelow v hv rfl hstrict v hv hd))
        fun hn => hn hd
    have hidle : (∀ q, G.plan.pending.get? d = some q → d ∈ s.resolved ∨ d ∈ s.resolving) →
        ∀ v ∈ G.program.variables, v.type = none → v.id = d → ¬ G.Pends s v := by
      intro hd v hv htype hid
      obtain ⟨q, hq, -⟩ := G.starts.serves.planned v hv
      exact htaken v hv htype hid (hd q (hid ▸ hq))
    rcases runs_demandWithin hr with ⟨heq, hnone⟩ | ⟨q, scope, k', s1, hk, hq, hscope, hv, rfl⟩
    · rw [heq]
      refine ⟨hs, hidle fun q hq => ?_⟩
      obtain ⟨-, hid⟩ := G.covers.pending d q hq
      rcases hnone q hq with hk | h | h | h
      · by_contra hnot
        rw [hk, Nat.le_zero, Finset.card_eq_zero] at hfew
        have hmem := Plan.mem_waiting hq (s := s) (hid ▸ hnot)
        rw [hfew] at hmem
        cases hmem
      · exact .inl h
      · exact .inr h
      · have howner := hs.owners d q hq
        rw [h] at howner
        cases howner
    · subst hk
      obtain ⟨hv', hid⟩ := G.covers.pending d q hq
      obtain ⟨hs0, -⟩ := hs.restack (s.around scope)
      rcases runs_variableDecl hv with ⟨htaken, rfl⟩ | ⟨hnew, hnew', s2, hrun, h⟩
      · exact ⟨hs, hidle fun _ _ => hid ▸ htaken⟩
      · have hs2 := stage_variable (ih k' (Nat.lt_succ_self k')) hs0 hv' ⟨hnew, hnew'⟩
          (Nat.le_of_lt_succ
          ((Plan.card_waiting_begun_lt (Plan.mem_waiting hq (not_or.mpr ⟨hnew, hnew'⟩))).trans_le
            hfew)) (hbelow q.decl hv' hid) hrun
        rcases h with ⟨-, rfl⟩ | ⟨hkind, -⟩
        · exact ⟨(hs2.restack s.stack).1, fun v _ _ heq hp => hp.1 (by
            rw [heq, ← hid]
            exact List.mem_cons_self)⟩
        · -- no variable of the plan belongs to a body
          have hquiet : Resolving.Along (Quiet G.plan)
              ({ s with stack := s.around scope }.begun q.decl)
              s2 := (within_variableType G.plan
                (quiet_demandWithin G.plan k') q.decl).of_runs hrun
          rw [(hquiet hs0.outside).currentKind?] at hkind
          change Context.currentKind? { s.toContext with stack := s.around scope } = _ at hkind
          rw [Context.currentKind?, Context.current?, head?_around] at hkind
          exact absurd hkind (hs.outside d q scope hq hscope)

end Outlook

end Sema
