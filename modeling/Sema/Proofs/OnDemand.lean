import Mathlib.Data.Finset.Card
import Sema.Proofs.Lockstep

/-!
Variables on demand. The initial value of a variable may ask for other variables, and these may
ask for it in turn. Each demand inside another puts one more variable of the plan under way, so no
chain of demands is longer than the plan; and a variable that was begun is under way or done from
then on, so none is begun twice.

The list of the variables under way forgets a variable once it is done. So the walk is run a second
time with a record of the variables whose initial values are resolved: the two go in step, and the
record has no repetition.
-/

namespace Sema

open Sema.Action

/-! ### What a call gives back -/

namespace Resolving

variable {s s1 s2 : Resolving}

/-- The variables under way are those from before, and every variable that was done still is. -/
structure Returns (s s' : Resolving) : Prop where
  resolving : s'.resolving = s.resolving
  resolved : s.resolved <:+ s'.resolved

namespace Returns

lemma refl (s : Resolving) : Returns s s :=
  ⟨rfl, List.suffix_refl _⟩

lemma trans (h1 : Returns s s1) (h2 : Returns s1 s2) : Returns s s2 :=
  ⟨h2.resolving.trans h1.resolving, h1.resolved.trans h2.resolved⟩

lemma taken (h : Returns s s1) {n : NodeId} (hn : s.Taken n) : s1.Taken n := by
  rcases hn with hn | hn
  · exact .inl (h.resolved.subset hn)
  · exact .inr (by rwa [h.resolving])

end Returns

/-- Equal states, reached by calls that give back what they found in `s0`. -/
def Shared (s0 s t : Resolving) : Prop :=
  t = s ∧ Returns s0 s

lemma Shared.refl (s : Resolving) : Shared s s s :=
  ⟨rfl, .refl s⟩

lemma blind_shared (s0 : Resolving) : Blind (Shared s0) where
  context h := by rw [h.1]
  replace h c := ⟨by rw [h.1], h.2.resolving, h.2.resolved⟩

lemma bond_shared (s0 : Resolving) : Bond (Shared s0) (Shared s0) where
  run := blind_shared s0
  stop := blind_shared s0
  fault h := h
  taken h n := by rw [h.1]

/-- The innermost variable is no longer under way. -/
def finish (s : Resolving) : Resolving :=
  { s with resolving := s.resolving.tail }

lemma Returns.finish {v : VariableDecl} (h : Returns (s.begun v) s1) : Returns s s1.finish :=
  ⟨congrArg List.tail h.resolving, h.resolved⟩

lemma Returns.done (h : Returns s s1) (v : VariableDecl) : Returns s (s1.done v) :=
  ⟨h.resolving, h.resolved.trans (List.suffix_cons v.id _)⟩

end Resolving

namespace Resolve

open Resolving

variable {α : Type} {plan : Plan} {d d' : NodeId → Resolve Unit} {s : Resolving}

/-- The two steps do the same in `s`, and give back what they found there. -/
abbrev Same (x y : Resolve α) (s : Resolving) : Prop :=
  Lockstep (Shared s) (Shared s) x y s s

lemma Same.returns {x y : Resolve α} (h : Same x y s) : Returns s (x.outcome s).2 :=
  (h.outcome fun _ _ h => h).2.2

/-- What a call inside another one gives back, the outer one can give back. -/
lemma Same.inside {x y : Resolve α} {s0 s t : Resolving} (h : Shared s0 s t)
    (hxy : Same x y s) :
    Lockstep (Shared s0) (Shared s0) x y s t := by
  obtain ⟨rfl, h⟩ := h
  exact hxy.imp (fun _ _ h' => ⟨h'.1, h.trans h'.2⟩) fun _ _ h' => ⟨h'.1, h.trans h'.2⟩

/-- The type of a variable is found in step if its initial value is, which may change how the states
are related. -/
lemma lockstep_variableTypeBy {R R1 F : Resolving → Resolving → Prop} {s t : Resolving}
    {f f' : Expr → Resolve Slot} (hB : Bond R F) (hB1 : Bond R1 F) (himp : ∀ s t, R1 s t → R s t)
    (hf : ∀ e s t, R1 s t → Lockstep R F (f e) (f' e) s t) (v : VariableDecl) (h : R1 s t) :
    Lockstep R F (variableTypeBy f v) (variableTypeBy f' v) s t := by
  refine (Lockstep.ofCheck hB1 h _).bind fun x s1 t1 h1 => ?_
  rcases v.type with _ | type <;> rcases v.value with _ | e
  · exact .fail (hB1.fault h1)
  · refine (hf e s1 t1 h1).bind fun found s2 t2 h2 => .get_bind ?_
    rw [hB.run.context h2]
    exact .refuse hB h2 fun _ => .ofCheck hB h2 _
  · refine (Lockstep.ofCheck hB1 h1 _).bind fun _ s2 t2 h2 => ?_
    exact (Lockstep.ofCheck hB1 h2 _).bind fun _ _ _ h3 => .pure (himp _ _ h3)
  · refine (Lockstep.ofCheck hB1 h1 _).bind fun _ s2 t2 h2 => ?_
    refine (Lockstep.ofCheck hB1 h2 _).bind fun _ s3 t3 h3 => ?_
    exact (hf e s3 t3 h3).bind fun _ _ _ h4 => .ofCheck hB h4 _

lemma lockstep_variableType {R F : Resolving → Resolving → Prop} {s t : Resolving} (hB : Bond R F)
    (hd : ∀ n s t, R s t → Lockstep R F (d n) (d' n) s t) (v : VariableDecl) (h : R s t) :
    Lockstep R F (variableType plan d v) (variableType plan d' v) s t :=
  lockstep_variableTypeBy hB hB (fun _ _ h => h) (fun e _ _ h => lockstep_expr hB hd e h) v h

/-- Two walks resolve a variable in step if they do so between putting it under way and noting that
it is done. -/
lemma lockstep_variableDeclBy {R F : Resolving → Resolving → Prop} {s t : Resolving} {m k : Manner}
    (hB : Bond R F) (h : R s t) (v : VariableDecl)
    (hv : ¬ s.Taken v.id → Lockstep (fun s t => R (s.done v) (t.done v)) F
      (variableTypeIn m plan d v) (variableTypeIn k plan d' v) s t) :
    Lockstep R F (variableDeclBy m plan d v) (variableDeclBy k plan d' v) s t := by
  refine .unlessTaken hB h v.id fun hn => (hv hn).bind fun _ s1 t1 h1 => ?_
  have hnote : Lockstep R F (modify (·.done v)) (modify (·.done v)) s1 t1 := .ok rfl rfl h1
  refine hnote.bind fun _ s2 t2 h2 => .get_bind ?_
  rw [hB.run.context h2]
  split
  · exact .ofCheck hB h2 _
  · exact .pure h2

/-- A variable is resolved in the same way if the demands inside it are answered in the same way. -/
lemma same_variableDecl (v : VariableDecl)
    (hd : ¬ s.Taken v.id → ∀ n s', Returns (s.begun v) s' → Same (d n) (d' n) s') :
    Same (variableDecl plan d v) (variableDecl plan d' v) s := by
  refine lockstep_variableDeclBy (m := .usual) (k := .usual) (bond_shared s) (.refl s) v
    fun hv => ?_
  have hinside : ∀ n s' t', Shared (s.begun v) s' t' →
      Lockstep (Shared (s.begun v)) (Shared (s.begun v)) (d n) (d' n) s' t' :=
    fun n s' t' h' => Same.inside h' (hd hv n s' h'.2)
  exact .bracket (.ok rfl rfl (.refl (s.begun v)))
    (fun _ _ h' => lockstep_variableType (bond_shared _) hinside v h')
    (fun s' t' h' => ⟨by rw [h'.1], h'.2.finish.done v⟩) fun s' t' h' => ⟨by rw [h'.1], h'.2.finish⟩

end Resolve

/-! ### No chain of demands is longer than the plan -/

namespace Plan

open Resolving

variable {plan : Plan} {s s' : Resolving} {n : NodeId}

/-- The variables of the plan that are neither under way nor done. -/
def waiting (plan : Plan) (s : Resolving) : Finset NodeId :=
  {n ∈ (plan.pending.entries.map fun entry => entry.2.decl.id).toFinset | ¬ s.Taken n}

lemma mem_waiting {q : Pending} (hq : plan.pending.get? n = some q) (hn : ¬ s.Taken q.decl.id) :
    q.decl.id ∈ plan.waiting s := by
  obtain ⟨l1, l2, hentries, -⟩ := List.lookup_eq_some_iff.mp hq
  have hmem : (n, q) ∈ plan.pending.entries := by
    rw [hentries]
    simp
  refine Finset.mem_filter.mpr ⟨List.mem_toFinset.mpr ?_, hn⟩
  exact List.mem_map_of_mem hmem

lemma card_waiting_le_size (plan : Plan) (s : Resolving) : (plan.waiting s).card ≤ plan.size :=
  calc (plan.waiting s).card
    _ ≤ (plan.pending.entries.map fun entry => entry.2.decl.id).toFinset.card :=
      Finset.card_filter_le _ _
    _ ≤ (plan.pending.entries.map fun entry => entry.2.decl.id).length := List.toFinset_card_le _
    _ = plan.size := List.length_map ..

lemma card_waiting_le (h : Returns s s') : (plan.waiting s').card ≤ (plan.waiting s).card :=
  Finset.card_le_card (Finset.monotone_filter_right _ fun _ _ => mt h.taken)

lemma card_waiting_begun_lt {v : VariableDecl} (hv : v.id ∈ plan.waiting s) :
    (plan.waiting (s.begun v)).card < (plan.waiting s).card := by
  have hsubset : plan.waiting (s.begun v) ⊆ plan.waiting s :=
    Finset.monotone_filter_right _ fun _ _ => mt fun h => h.imp_right (List.mem_cons_of_mem _)
  have hgone : v.id ∉ plan.waiting (s.begun v) := fun h =>
    (Finset.mem_filter.mp h).2 (.inr List.mem_cons_self)
  exact Finset.card_lt_card ((Finset.ssubset_iff_of_subset hsubset).mpr ⟨v.id, hv, hgone⟩)

end Plan

namespace Resolve

open Resolving

variable {plan : Plan} {d d' : NodeId → Resolve Unit} {s t : Resolving}

lemma lockstep_demandStep {R F : Resolving → Resolving → Prop} {m k : Manner} {n : NodeId}
    (hB : Bond R F) (h : R s t)
    (hv : ∀ q, plan.pending.get? n = some q → ∀ s' t', R s' t' → Lockstep R F
      (variableDeclBy m plan d q.decl) (variableDeclBy k plan d' q.decl) s' t') :
    Lockstep R F (demandStep m plan d n) (demandStep k plan d' n) s t := by
  unfold demandStep
  split
  · exact .pure h
  · next q hq =>
    refine .unlessTaken hB h n fun _ => .get_bind ?_
    rw [hB.run.context h]
    split
    · exact .pure h
    · exact .withStack hB h fun s' t' h' => (hv q hq s' t' h').within

/-- Demands are answered alike as long as fewer than `m` variables wait. -/
def Alike (plan : Plan) (m : Nat) (d d' : NodeId → Resolve Unit) : Prop :=
  ∀ n s, (plan.waiting s).card < m → Same (d n) (d' n) s

/-- A demand leaves one variable less that waits to the demands inside it. -/
lemma Alike.demandStep {m : Nat} (h : Alike plan m d d') :
    Alike plan (m + 1) (demandStep .usual plan d) (demandStep .usual plan d') := by
  intro n s hs
  refine lockstep_demandStep (bond_shared s) (.refl s) fun q hq s1 t1 h1 =>
    Same.inside h1 (same_variableDecl q.decl fun hv k s2 h2 => h k s2 ?_)
  calc (plan.waiting s2).card
    _ ≤ (plan.waiting (s1.begun q.decl)).card := Plan.card_waiting_le h2
    _ < (plan.waiting s1).card := Plan.card_waiting_begun_lt (Plan.mem_waiting hq hv)
    _ ≤ (plan.waiting s).card := Plan.card_waiting_le h1.2
    _ ≤ m := Nat.le_of_lt_succ hs

end Resolve

namespace Resolving

variable {stack : List NodeId} {s t : Resolving} {v : VariableDecl}

/-- Equal states in which the variables under way are those of `stack`, each once. -/
structure Watched (stack : List NodeId) (s t : Resolving) : Prop where
  same : t = s
  nodup : stack.Nodup
  stack : s.resolving = stack

lemma Watched.begun (h : Watched stack s t) (hv : ¬ s.Taken v.id) :
    Watched (v.id :: stack) (s.begun v) (t.begun v) where
  same := by rw [h.same]
  nodup := List.nodup_cons.mpr ⟨fun hmem => hv (.inr (h.stack ▸ hmem)), h.nodup⟩
  stack := congrArg (v.id :: ·) h.stack

lemma Watched.finish (h : Watched (v.id :: stack) s t) :
    Watched stack (s.finish.done v) (t.finish.done v) where
  same := by rw [h.same]
  nodup := h.nodup.of_cons
  stack := congrArg List.tail h.stack

/-- The walk while the variables of `stack` are under way, and the same walk with a record `log`,
in which no variable is twice. -/
structure Matched (stack : List NodeId) (s t : Resolving) : Prop where
  context : t.toContext = s.toContext
  resolved : t.resolved = s.resolved
  resolving : s.resolving = stack
  log : ∃ log, t.resolving = stack ++ log ∧ log.Nodup

/-- As long as the walk goes on, all variables in the record are taken. Those in `due` are not in it
yet. -/
structure Recorded (due stack : List NodeId) (s t : Resolving) : Prop where
  context : t.toContext = s.toContext
  resolved : t.resolved = s.resolved
  resolving : s.resolving = stack
  log : ∃ log, t.resolving = stack ++ log ∧ log.Nodup ∧ (∀ n ∈ log, s.Taken n) ∧ log.Disjoint due

variable {due : List NodeId}

lemma Recorded.begun (h : Recorded [] stack s t) (hv : ¬ s.Taken v.id) :
    Recorded [v.id] (v.id :: stack) (s.begun v) (t.begun v) := by
  obtain ⟨log, hlog, hnd, htaken, -⟩ := h.log
  refine ⟨h.context, h.resolved, congrArg (v.id :: ·) h.resolving, log,
    congrArg (v.id :: ·) hlog, hnd,
    fun n hn => (htaken n hn).imp_right (List.mem_cons_of_mem _), ?_⟩
  exact List.disjoint_singleton.mpr fun hm => hv (htaken _ hm)

lemma Recorded.settled (h : Recorded [v.id] stack s t) : Recorded [] stack s t := by
  obtain ⟨log, hlog, hnd, htaken, -⟩ := h.log
  exact ⟨h.context, h.resolved, h.resolving, log, hlog, hnd, htaken, List.disjoint_nil_right _⟩

lemma Matched.finish (h : Matched (v.id :: stack) s t) : Matched stack s.finish t.finish := by
  obtain ⟨log, hlog, hnd⟩ := h.log
  exact ⟨h.context, h.resolved, congrArg List.tail h.resolving, log, congrArg List.tail hlog, hnd⟩

lemma Recorded.finish (h : Recorded [] (v.id :: stack) s t) :
    Recorded [] stack (s.finish.done v) (t.finish.done v) := by
  obtain ⟨log, hlog, hnd, htaken, hdue⟩ := h.log
  refine ⟨h.context, congrArg (v.id :: ·) h.resolved, congrArg List.tail h.resolving, log,
    congrArg List.tail hlog, hnd, fun n hn => ?_, hdue⟩
  have := htaken n hn
  simp only [Resolving.finish, Resolving.done, Taken, h.resolving, List.mem_cons,
    List.tail_cons] at this ⊢
  tauto

end Resolving

namespace Resolve

open Resolving

variable {plan : Plan} {d d' : NodeId → Resolve Unit} {stack : List NodeId} {s t : Resolving}

end Resolve

end Sema
