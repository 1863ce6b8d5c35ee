import Mathlib.Data.List.Perm.Subperm
import Mathlib.Logic.Relation
import Mathlib.Tactic.Common
import Mathlib.Order.Nat
import Sema.Graph.Closure

/-!
Searches through a graph. A search has seen some vertices and has others pending, where a vertex may
stand more than once, and also after it has been seen. One turn takes some pending vertex; if it is
new, it counts as seen from then on and its successors become pending.

The pending vertices can become more and more for a while. Each new one is paid for by an edge that
leaves a vertex not seen before, so every search ends, whichever vertex each turn takes. What it has
seen by then is what can be reached.
-/

namespace Sema.Graph

/-- `w` can be reached from `v`. -/
def Reaches (next : Nat → List Nat) : Nat → Nat → Prop :=
  Relation.ReflTransGen fun a b => b ∈ next a

/-- In a graph without dangling edges only its vertices can be reached. -/
lemma Reaches.lt {next : Nat → List Nat} (h : Reaches next v w)
    (hnext : ∀ a < count, ∀ b ∈ next a, b < count) (hv : v < count) : w < count := by
  induction h with
  | refl => exact hv
  | tail _ hstep ih => exact hnext _ ih _ hstep

/-! ### Turns -/

/-- What a search has seen, and what it still has to look at. -/
structure Search where
  seen : List Nat
  pending : List Nat

namespace Search

/-- A search that starts from `v`. -/
def start (v : Nat) : Search :=
  ⟨[], [v]⟩

/-- The search has come across `w`. -/
def Knows (s : Search) (w : Nat) : Prop :=
  w ∈ s.seen ∨ w ∈ s.pending

end Search

/-- One turn of a search for a vertex with `goal`, which stops as soon as one has been seen. In
which order pending vertices are taken and put is left open. -/
inductive Turn (next : Nat → List Nat) (goal : Nat → Prop) : Search → Search → Prop
  | again {seen pending rest : List Nat} {v : Nat} (hgoal : ∀ u ∈ seen, ¬ goal u)
      (htake : pending.Perm (v :: rest)) (hseen : v ∈ seen) :
      Turn next goal ⟨seen, pending⟩ ⟨seen, rest⟩
  | visit {seen pending rest pending' : List Nat} {v : Nat} (hgoal : ∀ u ∈ seen, ¬ goal u)
      (htake : pending.Perm (v :: rest)) (hnew : v ∉ seen) (hput : pending'.Perm (next v ++ rest)) :
      Turn next goal ⟨seen, pending⟩ ⟨v :: seen, pending'⟩

/-- Turns one after the other. -/
def Turns (next : Nat → List Nat) (goal : Nat → Prop) : Search → Search → Prop :=
  Relation.ReflTransGen (Turn next goal)

/-- A search from `v` has come to its end in the state `s`. -/
structure Ended (next : Nat → List Nat) (goal : Nat → Prop) (v : Nat) (s : Search) : Prop where
  turns : Turns next goal (.start v) s
  last : ∀ s', ¬ Turn next goal s s'

variable {next : Nat → List Nat} {goal : Nat → Prop} {count v w : Nat} {s s' : Search}
  {seen vs : List Nat}

/-- A search goes on as long as something is pending and nothing has been found. -/
lemma exists_turn (hgoal : ∀ u ∈ s.seen, ¬ goal u) (hpending : s.pending ≠ []) :
    ∃ s', Turn next goal s s' := by
  obtain ⟨seen, pending⟩ := s
  obtain ⟨v, rest, rfl⟩ := List.exists_cons_of_ne_nil hpending
  by_cases hv : v ∈ seen
  · exact ⟨_, .again hgoal (.refl _) hv⟩
  · exact ⟨_, .visit hgoal (.refl _) hv (.refl _)⟩

/-! ### Every search ends -/

/-- The edges that leave the vertices of a list that are not in `seen`. -/
def edgesLeft (next : Nat → List Nat) (seen : List Nat) : List Nat → Nat
  | [] => 0
  | v :: vs => (if v ∈ seen then 0 else (next v).length) + edgesLeft next seen vs

lemma edgesLeft_nil_eq (vs : List Nat) : edgesLeft next [] vs = (vs.flatMap next).length := by
  induction vs with
  | nil => rfl
  | cons v vs ih => simp [edgesLeft, ih]

lemma edgesLeft_cons_of_notMem (h : v ∉ vs) :
    edgesLeft next (v :: seen) vs = edgesLeft next seen vs := by
  induction vs with
  | nil => rfl
  | cons w vs ih =>
    obtain ⟨hw, hvs⟩ := not_or.mp (mt List.mem_cons.mpr h)
    simp [edgesLeft, ih hvs, Ne.symm hw]

/-- Seeing a vertex pays for the edges that leave it. -/
lemma edgesLeft_see (hv : v ∉ seen) (hnd : vs.Nodup) (hmem : v ∈ vs) :
    edgesLeft next seen vs = edgesLeft next (v :: seen) vs + (next v).length := by
  induction vs with
  | nil => cases hmem
  | cons w vs ih =>
    obtain ⟨hw, hnd⟩ := List.nodup_cons.mp hnd
    rcases List.mem_cons.mp hmem with rfl | hmem
    · have h : edgesLeft next (v :: seen) vs = edgesLeft next seen vs :=
        edgesLeft_cons_of_notMem hw
      simp [edgesLeft, h, hv, Nat.add_comm]
    · have hne : w ≠ v := by
        rintro rfl
        exact hw hmem
      simp [edgesLeft, ih hnd hmem, hne, Nat.add_assoc]

namespace Search

/-- How many turns a search can take at most, in a graph of `count` vertices. -/
def effort (next : Nat → List Nat) (count : Nat) (s : Search) : Nat :=
  s.pending.length + edgesLeft next s.seen (List.range count)

lemma effort_start : (start v).effort next count = edgeCount next count + 1 := by
  simp [effort, start, edgeCount, edgesLeft_nil_eq, Nat.add_comm]

end Search

/-- **Every turn is paid for**, also one after which more is pending than before. -/
lemma Turn.effort_lt (hout : ∀ v, count ≤ v → next v = []) (h : Turn next goal s s') :
    s'.effort next count < s.effort next count := by
  cases h with
  | again _ htake _ => simp [Search.effort, htake.length_eq]
  | @visit seen _ _ _ v _ htake hnew hput =>
    -- what becomes pending is paid for by the edges that are no longer left
    have hpaid : (next v).length + edgesLeft next (v :: seen) (List.range count) ≤
        edgesLeft next seen (List.range count) := by
      by_cases hlt : v < count
      · rw [edgesLeft_see hnew List.nodup_range (List.mem_range.mpr hlt)]
        omega
      · have hmem : v ∉ List.range count := by simpa using hlt
        rw [edgesLeft_cons_of_notMem hmem, hout v (by omega)]
        simp
    simp only [Search.effort, hput.length_eq, htake.length_eq, List.length_append, List.length_cons]
    omega

/-- **No search goes on for ever**, whichever pending vertex each turn takes. -/
lemma wellFounded_turn (hout : ∀ v, count ≤ v → next v = []) (goal : Nat → Prop) :
    WellFounded fun s' s => Turn next goal s s' :=
  Subrelation.wf (fun h => h.effort_lt hout) (measure (Search.effort next count)).wf

/-! ### What a search finds -/

namespace Search

/-- What holds throughout a search from `v`: it comes across what can be reached only, and a
successor of what it has seen is not forgotten. -/
structure Sound (next : Nat → List Nat) (v : Nat) (s : Search) : Prop where
  start : s.Knows v
  reached : ∀ u, s.Knows u → Reaches next v u
  closed : ∀ u ∈ s.seen, ∀ w ∈ next u, s.Knows w

lemma sound_start : (Search.start v).Sound next v := by
  refine ⟨.inr List.mem_cons_self, fun u hu => ?_, fun u hu => absurd hu List.not_mem_nil⟩
  rcases hu with hu | hu
  · cases hu
  · rw [List.mem_singleton.mp hu]
    exact .refl

lemma Sound.turn (h : s.Sound next v) (hturn : Turn next goal s s') : s'.Sound next v := by
  cases hturn with
  | @again seen pending rest u _ htake hseen =>
    -- the vertex that is dropped has been seen
    have hknows : ∀ w, Knows ⟨seen, rest⟩ w ↔ Knows ⟨seen, pending⟩ w := fun w => by
      simp only [Knows, htake.mem_iff, List.mem_cons]
      refine ⟨Or.imp_right .inr, fun hw => ?_⟩
      rcases hw with hw | rfl | hw
      exacts [.inl hw, .inl hseen, .inr hw]
    exact ⟨(hknows v).mpr h.start, fun w hw => h.reached w ((hknows w).mp hw),
      fun a ha w hw => (hknows w).mpr (h.closed a ha w hw)⟩
  | @visit seen pending rest pending' u _ htake _ hput =>
    have hknows : ∀ w, Knows ⟨u :: seen, pending'⟩ w ↔ Knows ⟨seen, pending⟩ w ∨ w ∈ next u :=
      fun w => by
        simp only [Knows, hput.mem_iff, htake.mem_iff, List.mem_cons, List.mem_append]
        tauto
    have hu : Reaches next v u := h.reached u (.inr (htake.mem_iff.mpr List.mem_cons_self))
    refine ⟨(hknows v).mpr (.inl h.start), fun w hw => ?_, fun a ha w hw => (hknows w).mpr ?_⟩
    · rcases (hknows w).mp hw with hw | hw
      · exact h.reached w hw
      · exact hu.tail hw
    · rcases List.mem_cons.mp ha with rfl | ha
      · exact .inr hw
      · exact .inl (h.closed a ha w hw)

lemma Sound.of_turns (h : Turns next goal (.start v) s) : s.Sound next v := by
  induction h with
  | refl => exact sound_start
  | tail _ hturn ih => exact ih.turn hturn

/-- With nothing pending, what has been seen is closed under successors. -/
lemma Sound.mem_seen_iff (h : s.Sound next v) (hdone : s.pending = []) :
    w ∈ s.seen ↔ Reaches next v w := by
  have hknows : ∀ u, s.Knows u ↔ u ∈ s.seen := fun u => by simp [Knows, hdone]
  refine ⟨fun hw => h.reached w (.inl hw), fun hw => ?_⟩
  induction hw with
  | refl => exact (hknows v).mp h.start
  | tail _ hstep ih => exact (hknows _).mp (h.closed _ ih _ hstep)

end Search

/-- A search that has found nothing ends with nothing pending. -/
lemma Ended.pending_eq_nil (h : Ended next goal v s) (hgoal : ∀ u ∈ s.seen, ¬ goal u) :
    s.pending = [] := by
  by_contra hpending
  obtain ⟨s', hs'⟩ : ∃ s', Turn next goal s s' := exists_turn hgoal hpending
  exact h.last s' hs'

/-- **A search finds what there is to find**: at its end a vertex with `goal` has been seen just if
one can be reached. -/
lemma Ended.found_iff (h : Ended next goal v s) :
    (∃ u ∈ s.seen, goal u) ↔ ∃ w, Reaches next v w ∧ goal w := by
  have hsound := Search.Sound.of_turns h.turns
  refine ⟨fun ⟨u, hu, hgoal⟩ => ⟨u, hsound.reached u (.inl hu), hgoal⟩, fun ⟨w, hw, hgoal⟩ => ?_⟩
  by_contra hnone
  have hopen : ∀ u ∈ s.seen, ¬ goal u := fun u hu hu' => hnone ⟨u, hu, hu'⟩
  exact hopen w ((hsound.mem_seen_iff (h.pending_eq_nil hopen)).mpr hw) hgoal

/-- A search for nothing sees all that can be reached. -/
lemma Ended.mem_seen_iff (h : Ended next (fun _ => False) v s) :
    w ∈ s.seen ↔ Reaches next v w :=
  (Search.Sound.of_turns h.turns).mem_seen_iff (h.pending_eq_nil fun _ _ => id)

/-- **A search settles a question.** It ends, whichever pending vertex each turn takes, it only
comes across vertices below `count`, and at its end a vertex with `goal` has been seen just if
`answer`. -/
structure Settles (next : Nat → List Nat) (goal : Nat → Prop) (count v : Nat) (answer : Prop) :
    Prop where
  ends : Acc (fun s' s => Turn next goal s s') (.start v)
  range : ∀ s, Turns next goal (.start v) s → ∀ u, s.Knows u → u < count
  answer : ∀ s, Ended next goal v s → ((∃ u ∈ s.seen, goal u) ↔ answer)

/-- In a graph without dangling edges a search settles what can be reached. -/
lemma settles (hout : ∀ v, count ≤ v → next v = []) (hnext : ∀ a < count, ∀ b ∈ next a, b < count)
    (hv : v < count) : Settles next goal count v (∃ w, Reaches next v w ∧ goal w) where
  ends := (wellFounded_turn hout goal).apply _
  range _ h u hu := ((Search.Sound.of_turns h).reached u hu).lt hnext hv
  answer _ h := h.found_iff

/-! ### The search that is run -/

/-- Exploring takes turns, and with enough fuel it takes them all. -/
lemma turns_explore (hout : ∀ v, count ≤ v → next v = []) :
    ∀ (fuel : Nat) (seen pending : List Nat),
    Search.effort next count ⟨seen, pending⟩ ≤ fuel →
      Turns next (fun _ => False) ⟨seen, pending⟩ ⟨explore next fuel seen pending, []⟩
  | 0, seen, pending, hfuel => by
    have hnil : pending = [] :=
      List.eq_nil_of_length_eq_zero (Nat.le_zero.mp ((Nat.le_add_right _ _).trans hfuel))
    rw [hnil]
    exact .refl
  | _ + 1, seen, [], _ => .refl
  | fuel + 1, seen, v :: pending, hfuel => by
    have hstep : ∀ {s'}, Turn next (fun _ => False) ⟨seen, v :: pending⟩ s' →
        s'.effort next count ≤ fuel := fun h =>
      Nat.le_of_lt_succ ((h.effort_lt hout).trans_le hfuel)
    rw [explore]
    split
    · next hv =>
      have hturn : Turn next (fun _ => False) ⟨seen, v :: pending⟩ ⟨seen, pending⟩ :=
        .again (fun _ _ => id) (.refl _) hv
      exact .head hturn (turns_explore hout fuel seen pending (hstep hturn))
    · next hv =>
      have hturn : Turn next (fun _ => False) ⟨seen, v :: pending⟩ ⟨v :: seen, next v ++ pending⟩ :=
        .visit (fun _ _ => id) (.refl _) hv (.refl _)
      exact .head hturn (turns_explore hout fuel (v :: seen) (next v ++ pending) (hstep hturn))

/-- **The fuel is enough**: the vertices that are listed are those that a search has seen at its
end. -/
lemma ended_reachable (hout : ∀ v, count ≤ v → next v = []) (v : Nat) :
    Ended next (fun _ => False) v ⟨reachable next count v, []⟩ := by
  refine ⟨turns_explore hout _ [] [v] ?_, fun s' h => ?_⟩
  · change (Search.start v).effort next count ≤ _
    rw [Search.effort_start]
    omega
  · cases h with
    | again _ htake | visit _ htake => exact absurd htake.length_eq (by simp)

/-- **The search is exact** in a graph whose edges all leave a vertex below `count`. -/
theorem mem_reachable (hout : ∀ v, count ≤ v → next v = []) :
    w ∈ reachable next count v ↔ Reaches next v w :=
  (ended_reachable hout v).mem_seen_iff

end Sema.Graph
