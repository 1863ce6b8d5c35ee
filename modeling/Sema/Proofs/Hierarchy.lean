import Mathlib.Order.WellFoundedSet
import Sema.Proofs.Faults
import Sema.Proofs.Members

/-!
The hierarchy of classes. The base class of a class is found through the slot of an annotation, and
what is stored there is a copy of the class that the annotation names. So the slots above a class
are not the slots of its base classes; but their names are the names of the base classes, as the
declarations have them, and none of them is missing. With that, the check of the hierarchy finds
exactly the programs with a class that is among its own base classes, and in any other program the
operator `is` relates a class to its base classes and to those derived from it.
-/

namespace Sema

open Sema.Action Context

/-! ### Walks along base classes -/

namespace Graph

variable {α : Type} [DecidableEq α] {next : α → Option α} {v w : α}

/-- **A trail meets what can be reached**, if it is long enough for all vertices. -/
lemma mem_trail_iff {S : Finset α} {count : Nat} (hclosed : ∀ a ∈ S, ∀ b, next a = some b → b ∈ S)
    (hcard : S.card ≤ count) (hv : v ∈ S) :
    w ∈ trail next count v ↔ Relation.ReflTransGen (fun a b => next a = some b) v w := by
  constructor
  · exact mem_trailFrom (fun _ hx _ hy => hx.tail hy) .refl w
  · intro h
    obtain ⟨y, hfirst⟩ := Meets.exists_of_reaches (f := fun u => if u = w then some u else none) h
      (by simp)
    have hfound := (findSome?_trail_iff hclosed hcard hv).mpr hfirst
    obtain ⟨u, hu, hvalue⟩ := List.exists_of_findSome?_eq_some hfound
    split at hvalue
    · next heq => rwa [← heq]
    · cases hvalue

/-- Along a trail one comes from each vertex to all later ones. -/
lemma pairwise_trailFrom : ∀ {fuel : Nat} {seen : List α} {v : α},
    (trailFrom next fuel seen v).Pairwise (Relation.TransGen fun a b => next a = some b)
  | 0, _, _ => .nil
  | fuel + 1, seen, v => by
    unfold trailFrom
    split
    · exact .nil
    · rcases hw : next v with _ | w
      · exact List.pairwise_singleton _ _
      · refine .cons (fun u hu => ?_) pairwise_trailFrom
        have hreach := mem_trailFrom (Z := Relation.ReflTransGen (fun a b => next a = some b) w)
          (fun _ hx _ hy => hx.tail hy) .refl u hu
        exact .head' hw hreach

end Graph

namespace TypeStore

variable {t : TypeStore} {x y : Slot} {slots : List Slot} {seen : List String} {name : String}

/-- The base classes of a class are those that the walk along base classes comes to. -/
lemma mem_bases_iff (hlt : ∀ x y, t.base? x = some y → y < t.size) :
    y ∈ t.bases x ↔ Relation.TransGen (fun a b => t.base? a = some b) x y := by
  rw [Relation.TransGen.head'_iff, bases]
  rcases hz : t.base? x with _ | z
  · simp
  · simp only [Option.some.injEq, exists_eq_left']
    exact Graph.mem_trail_iff (S := Finset.range t.size)
      (fun a _ b hb => Finset.mem_range.mpr (hlt a b hb)) (by simp)
      (Finset.mem_range.mpr (hlt x z hz))

lemma pairwise_bases :
    (t.bases x).Pairwise (Relation.TransGen fun a b => t.base? a = some b) := by
  unfold bases
  split
  · exact Graph.pairwise_trailFrom
  · exact .nil

lemma exists_of_mem_freshNames
    (h : name ∈ t.freshNames seen slots) : ∃ y ∈ slots, (t.get y).nominalName? = some name := by
  induction slots generalizing seen with
  | nil => cases h
  | cons z rest ih =>
    rw [freshNames] at h
    split at h
    · cases h
    · next hz =>
      split at h
      · cases h
      · rcases List.mem_cons.mp h with rfl | h
        · exact ⟨z, List.mem_cons_self, hz⟩
        · obtain ⟨y, hy, hname⟩ := ih h
          exact ⟨y, List.mem_cons_of_mem _ hy, hname⟩

/-- No name is cut off as long as all names but the last are there, and differ. -/
lemma mem_freshNames (hpair : slots.Pairwise fun a b =>
      ∃ n, (t.get a).nominalName? = some n ∧ (t.get b).nominalName? ≠ some n)
    (hseen : ∀ y ∈ slots, ∀ n ∈ seen, (t.get y).nominalName? ≠ some n) (hy : y ∈ slots)
    (hname : (t.get y).nominalName? = some name) : name ∈ t.freshNames seen slots := by
  induction slots generalizing seen with
  | nil => cases hy
  | cons z rest ih =>
    obtain ⟨hz, hrest⟩ := List.pairwise_cons.mp hpair
    obtain ⟨hfresh, hseen⟩ := List.forall_mem_cons.mp hseen
    -- the first one has a name of its own
    have hcut : ∀ n, (t.get z).nominalName? = some n →
        t.freshNames seen (z :: rest) = n :: t.freshNames (n :: seen) rest := by
      intro n hn
      rw [freshNames, hn]
      exact if_neg fun hmem => hfresh n hmem hn
    rcases List.mem_cons.mp hy with rfl | hy
    · rw [hcut name hname]
      exact List.mem_cons_self
    · obtain ⟨n, hn, -⟩ := hz y hy
      rw [hcut n hn]
      refine List.mem_cons_of_mem _ (ih hrest (fun u hu => ?_) hy)
      refine List.forall_mem_cons.mpr ⟨?_, hseen u hu⟩
      obtain ⟨n', hn', hne⟩ := hz u hu
      rwa [Option.some.inj (hn.symm.trans hn')]

end TypeStore

/-! ### Base classes by name -/

namespace Program

variable {p : Program} {o o' : ClassDecl}

lemma exists_class (p : Program) (name : String) (h : (p.class? name).isSome = true) :
    ∃ o, .object o ∈ p.allDecls ∧ o.name.name = name := by
  obtain ⟨o, ho⟩ := Option.isSome_iff_exists.mp h
  exact ⟨o, mem_of_class? ho⟩

lemma DistinctTypeNames.eq_of_name (hd : p.DistinctTypeNames) (ho : .object o ∈ p.allDecls)
    (ho' : .object o' ∈ p.allDecls) (hname : o.name.name = o'.name.name) : o = o' := by
  have hclass := hd.class?_eq ho
  rw [hname, hd.class?_eq ho'] at hclass
  exact (Option.some.inj hclass).symm

lemma DistinctTypeNames.transGen_iff (hd : p.DistinctTypeNames) (ho : .object o ∈ p.allDecls)
    (ho' : .object o' ∈ p.allDecls) :
    Relation.TransGen (fun b b' => p.baseName? b = some b') o.name.name o'.name.name ↔
      Relation.TransGen p.Extends o o' := by
  simp only [Relation.TransGen.head'_iff]
  constructor
  · rintro ⟨b, hb, hreach⟩
    obtain ⟨o1, hext, rfl⟩ := (hd.baseName?_iff ho).mp hb
    obtain ⟨o2, ho2, hname, hextends⟩ := hd.extends_of_reaches hext.1 hreach
    exact ⟨o1, hext, hd.eq_of_name ho2 ho' hname ▸ hextends⟩
  · rintro ⟨o1, hext, hreach⟩
    exact ⟨o1.name.name, (hd.baseName?_iff ho).mpr ⟨o1, hext, rfl⟩,
      (hd.reaches_of_extends hext.1 hreach).2⟩

end Program

namespace Context

variable {p : Program} {c : Context} {o o' : ClassDecl} {x y : Slot} {name name' : String}

lemma ShowsClass.nominalName? (h : c.ShowsClass p x name) :
    (c.types.get x).nominalName? = some name := by
  obtain ⟨o, y, hclass, ⟨_, _, _, -, -, -, -, hshape⟩, hget⟩ := h
  rw [hget, hshape, ← (Program.mem_of_class? hclass).2]
  rfl

lemma ShowsClass.class?_ne_none (h : c.ShowsClass p x name) : p.class? name ≠ none := by
  obtain ⟨o, _, hclass, -⟩ := h
  exact Option.ne_none_iff_exists'.mpr ⟨o, hclass⟩

namespace Portrays

variable (h : c.Portrays p) (hd : p.DistinctTypeNames)

include h hd

/-- What comes after a class shows one of its base classes, or is a dead end. -/
lemma shows_of_transGen (hx : c.ShowsClass p x name)
    (hy : Relation.TransGen (fun a b => c.types.base? a = some b) x y) :
    (∃ name', c.ShowsClass p y name' ∧
      Relation.TransGen (fun b b' => p.baseName? b = some b') name name') ∨
    p.Lacks (c.types.get y) := by
  induction hy with
  | single hstep =>
    rcases h.shows_base hd hx with ⟨b, name', hb, hname', hshows⟩ | ⟨-, hdead⟩
    · cases hstep.symm.trans hb
      exact .inl ⟨name', hshows, .single hname'⟩
    · exact .inr (hdead _ hstep)
  | @tail y z _ hstep ih =>
    rcases ih with ⟨name', hy, hreach⟩ | hlacks
    · rcases h.shows_base hd hy with ⟨b, name'', hb, hname'', hshows⟩ | ⟨-, hdead⟩
      · cases hstep.symm.trans hb
        exact .inl ⟨name'', hshows, hreach.tail hname''⟩
      · exact .inr (hdead _ hstep)
    · cases (Shape.of_classScope?_eq_none hlacks.1).2.symm.trans hstep

/-- Every base class comes after a class. -/
lemma exists_shows (hx : c.ShowsClass p x name)
    (hname : Relation.TransGen (fun b b' => p.baseName? b = some b') name name') :
    ∃ y, Relation.TransGen (fun a b => c.types.base? a = some b) x y ∧ c.ShowsClass p y name' := by
  induction hname with
  | single hstep =>
    rcases h.shows_base hd hx with ⟨b, name', hb, hname', hshows⟩ | ⟨hnone, -⟩
    · cases hstep.symm.trans hname'
      exact ⟨b, .single hb, hshows⟩
    · cases hstep.symm.trans hnone
  | tail _ hstep ih =>
    obtain ⟨y, hreach, hy⟩ := ih
    rcases h.shows_base hd hy with ⟨b, name', hb, hname', hshows⟩ | ⟨hnone, -⟩
    · cases hstep.symm.trans hname'
      exact ⟨b, hreach.tail hb, hshows⟩
    · cases hstep.symm.trans hnone

/-- **The slots above a class have the names of its base classes.** -/
lemma named_base_iff (hlt : ∀ x y, c.types.base? x = some y → y < c.types.size)
    (hx : c.ShowsClass p x name) (ho' : .object o' ∈ p.allDecls) :
    (∃ y ∈ c.types.bases x, (c.types.get y).nominalName? = some o'.name.name) ↔
      Relation.TransGen (fun b b' => p.baseName? b = some b') name o'.name.name := by
  simp only [TypeStore.mem_bases_iff hlt]
  constructor
  · rintro ⟨y, hy, hname⟩
    rcases h.shows_of_transGen hd hx hy with ⟨name', hshows, hreach⟩ | hlacks
    · rwa [← Option.some.inj (hshows.nominalName?.symm.trans hname)]
    · cases (hlacks.2 _ hname).symm.trans (hd.class?_eq ho')
  · intro hreach
    obtain ⟨y, hy, hshows⟩ := h.exists_shows hd hx hreach
    exact ⟨y, hy, hshows.nominalName?⟩

/-- A class is found to inherit from itself when it does. -/
lemma inheritsFromItself_iff (hlt : ∀ x y, c.types.base? x = some y → y < c.types.size)
    (ho : .object o ∈ p.allDecls) (hx : c.nodeType? o.id = some x) :
    c.types.inheritsFromItself x = true ↔ Relation.TransGen p.Extends o o := by
  have hshows := h.shows_class hd ho hx
  rw [← hd.transGen_iff ho ho, ← h.named_base_iff hd hlt hshows ho, TypeStore.inheritsFromItself,
    hshows.nominalName?]
  simp

/-- If no class is among its own base classes, the names above a class are those of all its base
classes. -/
lemma mem_ancestorNames_iff (hlt : ∀ x y, c.types.base? x = some y → y < c.types.size)
    (hacyclic : ∀ o, .object o ∈ p.allDecls → ¬ Relation.TransGen p.Extends o o)
    (ho : .object o ∈ p.allDecls) (hx : c.nodeType? o.id = some x)
    (ho' : .object o' ∈ p.allDecls) :
    o'.name.name ∈ c.types.ancestorNames x ↔ Relation.TransGen p.Extends o o' := by
  have hshows := h.shows_class hd ho hx
  have hnames : ∀ {name}, p.class? name ≠ none →
      ¬ Relation.TransGen (fun b b' => p.baseName? b = some b') name name := by
    intro name hclass hcycle
    obtain ⟨o, ho⟩ := Option.ne_none_iff_exists'.mp hclass
    obtain ⟨hmem, rfl⟩ := Program.mem_of_class? ho
    exact hacyclic o hmem ((hd.transGen_iff hmem hmem).mp hcycle)
  rw [← hd.transGen_iff ho ho', ← h.named_base_iff hd hlt hshows ho']
  refine ⟨TypeStore.exists_of_mem_freshNames, fun ⟨y, hy, hname⟩ => ?_⟩
  refine TypeStore.mem_freshNames ?_ (fun u hu n hn hun => ?_) hy hname
  · refine TypeStore.pairwise_bases.imp_of_mem fun {a b} ha _ hab => ?_
    rw [TypeStore.mem_bases_iff hlt] at ha
    rcases h.shows_of_transGen hd hshows ha with ⟨n, hn, -⟩ | hlacks
    · refine ⟨n, hn.nominalName?, fun hb => ?_⟩
      rcases h.shows_of_transGen hd hn hab with ⟨n', hn', hreach⟩ | hlacks
      · cases hn'.nominalName?.symm.trans hb
        exact hnames hn.class?_ne_none hreach
      · exact hn.class?_ne_none (hlacks.2 _ hb)
    · -- nothing comes after a dead end
      obtain ⟨_, hstep, -⟩ := Relation.TransGen.head'_iff.mp hab
      cases (Shape.of_classScope?_eq_none hlacks.1).2.symm.trans hstep
  · rw [hshows.nominalName?] at hn
    cases List.mem_singleton.mp hn
    have hcycle := (h.named_base_iff hd hlt hshows ho).mp ⟨u, hu, hun⟩
    exact hnames hshows.class?_ne_none hcycle

end Portrays

end Context

/-! ### The check of the hierarchy -/

namespace Resolve

variable {p : Program} {mode : ScopeMode} {plan : Plan} {c c1 c3 c4 : Context} {f : Fault}

/-- The second walk as far as the signatures of all declarations. -/
def outline (mode : ScopeMode) (p : Program) : Check Unit :=
  mode.inScope .program p.toNode (signatures mode p.declarations)

lemma exists_plan (hc : c.WellFormed) (p : Program) :
    ∃ plan c', Runs (Plan.addDecls {} p.id p.declarations) c plan c' := by
  have hensures : Ensures Leads (fun _ => False) (Plan.addDecls {} p.id p.declarations) c
      fun _ _ => True := Plan.ensures_addDecls p.id p.declarations hc
  rcases houtcome : (Plan.addDecls {} p.id p.declarations).outcome c with ⟨f | plan, c'⟩
  · exact (hensures.fault f c' houtcome).elim
  · exact ⟨plan, c', houtcome⟩

/-- With its signatures resolved, a program can only fail in its hierarchy or further on. -/
lemma fails_program_iff (hplan : Runs (Plan.addDecls {} p.id p.declarations) c1 plan c)
    (henter : Runs (mode.enter .program p.id p.location) c () c3)
    (hsig : Runs (signatures mode p.declarations) c3 () c4) :
    Fails (program mode p) c1 f ↔ Fails (hierarchies p.declarations) c4 f ∨
      ∃ c5, Runs (hierarchies p.declarations) c4 () c5 ∧
        Fails (decls mode plan p.declarations) { toContext := c5 } f := by
  have hplan : (Plan.addDecls {} p.id p.declarations).outcome c1 = (.ok plan, c) := hplan
  have henter : (mode.enter .program p.id p.location).outcome c = (.ok (), c3) := henter
  have hsig : (signatures mode p.declarations).outcome c3 = (.ok (), c4) := hsig
  have hlift : ∀ (x : Check Unit) (s : Resolving), (liftM x : Resolve Unit).outcome s =
      ((x.outcome s.toContext).1, { s with toContext := (x.outcome s.toContext).2 }) :=
    outcome_ofCheck
  simp only [Fails, Runs, program, walk, outcome_bind, hplan, outcome_toCheck, inScope,
    outcome_bracket,
    outcome_ofCheck, henter, hlift, hsig]
  rcases (hierarchies p.declarations).outcome c4 with ⟨_ | _, c5⟩
  · simp
  · rcases (decls mode plan p.declarations).outcome { toContext := c5 } with ⟨_ | _, s'⟩ <;> simp

lemma wellFormed_of_signatures (hcollect : Runs (Collect.program .fresh p) {} () c1)
    (henter : Runs (ScopeMode.reopen.enter .program p.id p.location) c1 () c3)
    (hsig : Runs (signatures .reopen p.declarations) c3 () c4) : c4.WellFormed := by
  have hfirst := Collect.ensures_program (E := fun _ => True) .empty p (.inr rfl)
  have h1 := (hfirst.of_value hcollect).wellFormed
  have h3 := ((ScopeMode.ensures_enter (E := fun _ => True) h1 (.inl trivial)).of_value
    henter).wellFormed
  exact ((ensures_signatures (E := fun _ => True) p.declarations h3
    (.inl fun _ => trivial) False.elim).leads.of_value hsig).wellFormed

/-- **The check of the hierarchy passes** when no class is among its own base classes, and
otherwise blames a class that is. -/
lemma Begins.judges_extends {s : Resolving} (hbegins : Begins p plan s) (hp : p.FullyNumbered)
    (hd : p.DistinctTypeNames) (hcollect : Runs (Collect.program .fresh p) {} () c1)
    (henter : Runs (ScopeMode.reopen.enter .program p.id p.location) c1 () c3)
    (hsig : Runs (signatures .reopen p.declarations) c3 () s.toContext) :
    (Runs (hierarchies p.declarations) s.toContext () s.toContext ∧
        ∀ o, .object o ∈ p.allDecls → ¬ Relation.TransGen p.Extends o o) ∨
      ∃ o f, .object o ∈ p.allDecls ∧ Relation.TransGen p.Extends o o ∧
        f.cause = .cyclicInheritance o.name.name ∧
        Fails (hierarchies p.declarations) s.toContext f := by
  obtain ⟨houtlined, -⟩ := hbegins.outlined hp hcollect henter hsig
  have hportrays := houtlined.portrays hd
  have hwf := wellFormed_of_signatures hcollect henter hsig
  have hiff := fun {o : ClassDecl} {x : Slot} => hportrays.inheritsFromItself_iff (o := o) (x := x)
    hd fun _ _ => hwf.base?_lt
  rcases hbegins.judges with ⟨hok, hnone⟩ | ⟨o, x, f, ho, hx, hin, hf, hfail⟩
  · refine .inl ⟨hok, fun o ho hcycle => ?_⟩
    obtain ⟨x, hx⟩ := hportrays.holds ho
    have hin := (hiff ho hx.nodeType?).mpr hcycle
    cases (hnone o ho x hx.nodeType?).symm.trans hin
  · exact .inr ⟨o, f, ho, (hiff ho hx).mp hin, hf, congrArg Prod.fst hfail⟩

end Resolve

/-! ### Classes before and after the program is arranged -/

namespace ClassDecl

variable (o : ClassDecl)

@[simp] lemma toNode_hoist : o.hoist.toNode = o.toNode := by
  cases o
  rfl

@[simp] lemma name_hoist : o.hoist.name = o.name := by
  cases o
  rfl

@[simp] lemma base_hoist : o.hoist.base = o.base := by
  cases o
  rfl

end ClassDecl

namespace Program

variable {p p' : Program} {o o' : ClassDecl}

lemma mem_of_transGen (h : Relation.TransGen p.Extends o o') : .object o' ∈ p.allDecls := by
  obtain ⟨_, -, hext⟩ := Relation.TransGen.tail'_iff.mp h
  exact hext.1

section

variable (h : p.hoist.withEntryPoint = .ok p')

include h

lemma object_arranged_iff :
    .object o' ∈ p'.allDecls ↔ ∃ o, .object o ∈ p.allDecls ∧ o.hoist = o' := by
  have hhoist : .object o' ∈ p.hoist.allDecls ↔ ∃ o, .object o ∈ p.allDecls ∧ o.hoist = o' := by
    rw [(allDecls_hoist p).mem_iff, List.mem_map]
    constructor
    · rintro ⟨d, hd, heq⟩
      cases d <;> cases heq
      exact ⟨_, hd, rfl⟩
    · rintro ⟨o, ho, rfl⟩
      exact ⟨_, ho, rfl⟩
  rcases withEntryPoint_cases h with ⟨rfl, -⟩ | rfl
  · exact hhoist
  · rw [allDecls, allOf_entryPoint, List.mem_append]
    simpa using hhoist

lemma extends_arranged_iff : p'.Extends o.hoist o' ↔ ∃ b, p.Extends o b ∧ b.hoist = o' := by
  rw [Extends, object_arranged_iff h, ClassDecl.base_hoist]
  constructor
  · rintro ⟨⟨b, hb, rfl⟩, hname⟩
    exact ⟨b, ⟨hb, by simpa using hname⟩, rfl⟩
  · rintro ⟨b, ⟨hb, hname⟩, rfl⟩
    exact ⟨⟨b, hb, rfl⟩, by simpa using hname⟩

/-- The order of members does not matter to the hierarchy. -/
lemma transGen_arranged_iff (hd : p.DistinctTypeNames) (ho' : .object o' ∈ p.allDecls) :
    Relation.TransGen p'.Extends o.hoist o'.hoist ↔ Relation.TransGen p.Extends o o' := by
  constructor
  · intro hreach
    obtain ⟨b, hreach, heq⟩ : ∃ b, Relation.TransGen p.Extends o b ∧ b.hoist = o'.hoist := by
      generalize o'.hoist = q at hreach
      induction hreach with
      | single hstep =>
        obtain ⟨b, hext, rfl⟩ := (extends_arranged_iff h).mp hstep
        exact ⟨b, .single hext, rfl⟩
      | tail _ hstep ih =>
        obtain ⟨b, hreach, rfl⟩ := ih
        obtain ⟨b', hext, rfl⟩ := (extends_arranged_iff h).mp hstep
        exact ⟨b', hreach.tail hext, rfl⟩
    have hname : b.name.name = o'.name.name := by
      rw [← b.name_hoist, heq, o'.name_hoist]
    rwa [← hd.eq_of_name (mem_of_transGen hreach) ho' hname]
  · intro hreach
    exact hreach.lift ClassDecl.hoist fun _ _ hext => (extends_arranged_iff h).mpr ⟨_, hext, rfl⟩

end

/-- Without a class that is among its own base classes, every way up the hierarchy ends. -/
lemma acc_extends (hacyclic : ∀ o, .object o ∈ p.allDecls → ¬ Relation.TransGen p.Extends o o)
    (ho : .object o ∈ p.allDecls) : Acc (fun b o => p.Extends o b) o := by
  let above : ClassDecl → ClassDecl → Prop := fun b o => Relation.TransGen p.Extends o b
  have hstrict : IsStrictOrder ClassDecl above :=
    { irrefl := fun o hcycle => hacyclic o (mem_of_transGen hcycle) hcycle
      trans := fun _ _ _ hab hbc => hbc.trans hab }
  have hfinite : {o | Decl.object o ∈ p.allDecls}.Finite := by
    refine (p.allDecls.filterMap Decl.class?).finite_toSet.subset fun o ho => ?_
    exact mem_classes.mpr ho
  have hwf : {o | Decl.object o ∈ p.allDecls}.WellFoundedOn above := hfinite.wellFoundedOn
  exact hwf.induction ho fun o _ ih => ⟨o, fun b hext => ih b hext.1 (.single hext)⟩

end Program

/-! ### Accepted and rejected programs -/

lemma Relation.hierarchy_holds_iff {t : TypeStore} {x y : Slot} {scope scope' : ScopeId}
    {base base' : Option Slot} {name name' : String} {fields fields' : List (String × Slot)}
    (hx : t.get x = .object scope base name fields)
    (hy : t.get y = .object scope' base' name' fields') :
    Relation.hierarchy.holds t x y = true ↔
      name = name' ∨ name' ∈ t.ancestorNames x ∨ name ∈ t.ancestorNames y := by
  have hsame : x = y → name = name' := by
    rintro rfl
    cases hx.symm.trans hy
    rfl
  rw [Relation.holds, Relation.holdsWithin, Bool.or_eq_true, decide_eq_true_eq]
  have hlayers : Relation.hierarchy.layersAgree t
      (Relation.hierarchy.holdsWithin t (t.size * t.size)) x y = true ↔
      name = name' ∨ name' ∈ t.ancestorNames x ∨ name ∈ t.ancestorNames y := by
    simp [Relation.layersAgree, hx, hy, Relation.classesAgree, or_assoc]
  exact (or_congr_right hlayers).trans (or_iff_right_of_imp (.inl ∘ hsame))

namespace Analysis

variable {p : Program} {a : Analysis} {c1 c2 : Context}

/-- In an accepted program no class is among its own base classes. -/
lemma Accepts.acyclic (h : Accepts p a c1 c2) (hp : p.FullyNumbered) (hd : p.DistinctTypeNames)
    {o : ClassDecl} (ho : .object o ∈ a.program.allDecls) :
    ¬ Relation.TransGen a.program.Extends o o := by
  have hnum := hp.hoist.withEntryPoint h.arranged
  obtain ⟨plan, c3, s, s', hbegins, henter, hsig, hhier, -, -⟩ :=
    Resolve.stages_of_program hnum.toNumbered h.collect h.resolve
  rcases hbegins.judges_extends hnum (hd.hoist.withEntryPoint h.arranged) h.collect henter hsig with
    ⟨-, hacyclic⟩ | ⟨_, _, -, -, -, hfail⟩
  · exact hacyclic o ho
  · cases (congrArg Prod.fst hhier).symm.trans hfail

/-- **A cycle in the hierarchy is found, and nothing else is taken for one.** Let all classes and
enums of a program have different names, and let its declarations be collected and its signatures
resolved. Then the second walk complains about a cycle exactly when some class, however deeply
nested, is among its own base classes. So in an accepted program every way up the hierarchy ends. -/
theorem cyclicInheritance_iff (hp : p.FullyNumbered) (hd : p.DistinctTypeNames) :
    (∀ c c', Runs (Collect.program .fresh p) {} () c → Runs (Resolve.outline .reopen p) c () c' →
      ((∃ f name, Fails (Resolve.program .reopen p) c f ∧ f.cause = .cyclicInheritance name) ↔
        ∃ o, .object o ∈ p.allDecls ∧ Relation.TransGen p.Extends o o)) ∧
    ∀ a, Analysis.standard p = .ok a → ∀ o, .object o ∈ p.allDecls →
      Acc (fun b o => p.Extends o b) o := by
  refine ⟨fun c c' hcollect houtline => ?_, fun a ha o ho => ?_⟩
  · obtain ⟨c3, c4, henter, hsig, -⟩ := runs_bracket.mp houtline
    have hc := ((Collect.ensures_program (E := fun _ => True) .empty p (.inr rfl)).of_value
      hcollect).wellFormed
    obtain ⟨plan, c0, hplan⟩ := Resolve.exists_plan hc p
    obtain ⟨rfl, -⟩ := Resolve.serves_of_plan hp.toNumbered hcollect hplan
    have hbegins := Resolve.begins_of_signatures hp.toNumbered hcollect hplan henter hsig
    simp only [Resolve.fails_program_iff hplan henter hsig]
    rcases hbegins.judges_extends hp hd hcollect henter hsig with
      ⟨hok, hacyclic⟩ | ⟨o, f, ho, hcycle, hcause, hfail⟩
    · refine ⟨fun ⟨f, name, hfails, hcause⟩ => ?_, fun ⟨o, ho, hcycle⟩ => ?_⟩
      · rcases hfails with hfails | ⟨c5, hhier, hfails⟩
        · cases (congrArg Prod.fst hok).symm.trans hfails
        -- past the hierarchy no fault is about it
        cases hok.symm.trans hhier
        have hwf := Resolve.wellFormed_of_signatures hcollect henter hsig
        have hother := (Resolve.intact_decls p.declarations hwf).of_fails hfails
        rw [hcause] at hother
        cases hother
      · exact absurd hcycle (hacyclic o ho)
    · exact ⟨fun _ => ⟨o, ho, hcycle⟩, fun _ => ⟨f, _, .inl hfail, hcause⟩⟩
  · obtain ⟨c1, c2, hacc⟩ := accepts_of_standard ha
    refine Program.acc_extends (fun o ho hcycle => ?_) ho
    refine hacc.acyclic hp hd ((Program.object_arranged_iff hacc.arranged).mpr ⟨o, ho, rfl⟩) ?_
    exact (Program.transGen_arranged_iff hacc.arranged hd ho).mpr hcycle

/-- Two classes inside another one that name each other as base class. -/
def knotted : Program :=
  (StateT.run (m := Id) (do
    let hen ← Draft.classDecl "Hen" (some (← Draft.namedType "Egg" [])) []
    let egg ← Draft.classDecl "Egg" (some (← Draft.namedType "Hen" [])) []
    let farm ← Draft.classDecl "Farm" none [.object hen, .object egg]
    Draft.program [.object farm] []) {}).1

/-- A class inside its base class, which is declared before a base class of its own. -/
def kinship : Program :=
  (StateT.run (m := Id) (do
    let daughter ← Draft.classDecl "Daughter" (some (← Draft.namedType "Mother" [])) []
    let mother ← Draft.classDecl "Mother" (some (← Draft.namedType "Grandmother" []))
      [.object daughter]
    let grandmother ← Draft.classDecl "Grandmother" none []
    Draft.program [.object mother, .object grandmother] []) {}).1

lemma kinship_numbered : kinship.FullyNumbered ∧ kinship.DistinctTypeNames := by
  refine ⟨⟨⟨by decide +kernel, by decide +kernel⟩, by decide +kernel, by decide +kernel⟩, ?_⟩
  change (kinship.allDecls.filterMap Decl.typeName?).Nodup
  decide +kernel

lemma kinship_accepted : ∃ a, Analysis.standard kinship = .ok a := by
  obtain ⟨a, ha, -⟩ := exists_of_map_eq (p := kinship) (f := fun _ => ()) (y := ())
    (by decide +kernel)
  exact ⟨a, ha⟩

theorem cyclicInheritance_iff_knotted :
    (∃ c c', Runs (Collect.program .fresh knotted) {} () c ∧
      Runs (Resolve.outline .reopen knotted) c () c' ∧ ∃ f name,
        Fails (Resolve.program .reopen knotted) c f ∧ f.cause = .cyclicInheritance name) ∧
    ∃ a o, Analysis.standard kinship = .ok a ∧ .object o ∈ kinship.allDecls ∧
      o.name.name = "Daughter" ∧ Acc (fun b o => kinship.Extends o b) o := by
  constructor
  · have hp : knotted.FullyNumbered :=
      ⟨⟨by decide +kernel, by decide +kernel⟩, by decide +kernel, by decide +kernel⟩
    have hd : knotted.DistinctTypeNames := by
      change (knotted.allDecls.filterMap Decl.typeName?).Nodup
      decide +kernel
    have hcollect : Runs (Collect.program .fresh knotted) {} () _ :=
      runs_of_toOption (by decide +kernel)
    have houtline : Runs (Resolve.outline .reopen knotted)
        ((Collect.program .fresh knotted).outcome {}).2 () _ :=
      runs_of_toOption (by decide +kernel)
    refine ⟨_, _, hcollect, houtline, ?_⟩
    refine ((cyclicInheritance_iff hp hd).1 _ _ hcollect houtline).mpr ?_
    obtain ⟨o, ho, hname⟩ := knotted.exists_class "Hen" (by decide +kernel)
    refine ⟨o, ho, (hd.transGen_iff ho ho).mp ?_⟩
    rw [hname]
    exact .tail (b := "Egg") (.single (by decide +kernel)) (by decide +kernel)
  · obtain ⟨hp, hd⟩ := kinship_numbered
    obtain ⟨a, ha⟩ := kinship_accepted
    obtain ⟨o, ho, hname⟩ := kinship.exists_class "Daughter" (by decide +kernel)
    exact ⟨a, o, ha, ho, hname, (cyclicInheritance_iff hp hd).2 a ha o ho⟩

/-- **The operator `is` follows the hierarchy.** In an accepted program whose classes and enums
have different names, the types of two classes agree up to inheritance exactly when the classes are
the same, or one of them is a base class of the other, at any distance. -/
theorem hierarchy_agreement_iff (hp : p.FullyNumbered) (hd : p.DistinctTypeNames)
    (h : Analysis.standard p = .ok a) {o o' : ClassDecl} (ho : .object o ∈ p.allDecls)
    (ho' : .object o' ∈ p.allDecls) :
    ∃ x y, a.context.nodeType? o.id = some x ∧ a.context.nodeType? o'.id = some y ∧
      (Relation.hierarchy.holds a.context.types x y = true ↔
        o = o' ∨ Relation.TransGen p.Extends o o' ∨ Relation.TransGen p.Extends o' o) := by
  obtain ⟨c1, c2, hacc⟩ := accepts_of_standard h
  obtain ⟨g, hg⟩ := hacc.context
  have hwf := hacc.wellFormed
  have hacyclic := fun o => hacc.acyclic (o := o) hp hd
  have hmem := fun {o : ClassDecl} (ho : .object o ∈ p.allDecls) =>
    (Program.object_arranged_iff hacc.arranged).mpr ⟨o, ho, rfl⟩
  have hreach := fun {o o' : ClassDecl} (ho' : .object o' ∈ p.allDecls) =>
    Program.transGen_arranged_iff (o := o) hacc.arranged hd ho'
  obtain ⟨G, s', hprogram, -, hdecls, rfl⟩ := hacc.setting hp hd
  rw [← hprogram] at hdecls hacyclic hmem hreach
  have hadv := G.advances hdecls
  obtain ⟨-, hkeeps⟩ := Resolve.names_decls G.between (fun _ ho => ho) G.ahead G.starts.homes hdecls
  have hportrays := Setting.portrays ((Setting.Stands.start G).keeps hkeeps G.ahead.apart) hadv
  have hnames : ∀ {o o' : ClassDecl} {x : Slot}, .object o ∈ G.program.allDecls →
      s'.nodeType? o.id = some x → .object o' ∈ G.program.allDecls →
        (o'.name.name ∈ s'.types.ancestorNames x ↔ Relation.TransGen G.program.Extends o o') :=
    hportrays.mem_ancestorNames_iff G.distinct (fun _ _ => hwf.base?_lt) hacyclic
  -- both classes have their slots
  obtain ⟨x, _, _, _, hx, -, -, -, hshape⟩ := hportrays.holds (hmem ho)
  obtain ⟨y, _, _, _, hy, -, -, -, hshape'⟩ := hportrays.holds (hmem ho')
  rw [hg]
  refine ⟨x, y, o.toNode_hoist ▸ hx, o'.toNode_hoist ▸ hy,
    (Relation.hierarchy_holds_iff hshape hshape').trans (or_congr ?_ (or_congr ?_ ?_))⟩
  · rw [o.name_hoist, o'.name_hoist]
    exact ⟨hd.eq_of_name ho ho', fun heq => heq ▸ rfl⟩
  · exact (hnames (hmem ho) hx (hmem ho')).trans (hreach ho')
  · exact (hnames (hmem ho') hy (hmem ho)).trans (hreach ho)

theorem hierarchy_agreement_iff_kinship : ∃ a o o' x y, Analysis.standard kinship = .ok a ∧
    .object o ∈ kinship.allDecls ∧ o.name.name = "Daughter" ∧ .object o' ∈ kinship.allDecls ∧
    o'.name.name = "Grandmother" ∧ a.context.nodeType? o.id = some x ∧
    a.context.nodeType? o'.id = some y ∧ Relation.hierarchy.holds a.context.types x y = true := by
  obtain ⟨hp, hd⟩ := kinship_numbered
  obtain ⟨a, ha⟩ := kinship_accepted
  obtain ⟨o, ho, hname⟩ := kinship.exists_class "Daughter" (by decide +kernel)
  obtain ⟨o', ho', hname'⟩ := kinship.exists_class "Grandmother" (by decide +kernel)
  have hreach : Relation.TransGen kinship.Extends o o' := by
    rw [← hd.transGen_iff ho ho', hname, hname']
    exact .tail (b := "Mother") (.single (by decide +kernel)) (by decide +kernel)
  obtain ⟨x, y, hx, hy, hiff⟩ := hierarchy_agreement_iff hp hd ha ho ho'
  exact ⟨a, o, o', x, y, ha, ho, hname, ho', hname', hx, hy, hiff.mpr (.inr (.inl hreach))⟩

end Analysis

end Sema
