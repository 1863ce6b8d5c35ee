import Sema.Proofs.Declared
import Sema.Proofs.Planned

/-!
The state in which variables and bodies begin to be resolved. Every node of a signature holds its
layer, every class and function has its scope, no class is its own base class, and the scope of the
program is open.
-/

namespace Sema

open Sema.Action Context

namespace Program

variable {p p' : Program} {d : Decl} {name : String}

/-- The program itself has a number of its own, too. -/
structure FullyNumbered (p : Program) : Prop extends p.Numbered where
  root : p.id ∉ p.nodes
  root_lt : p.id < p.nextId

lemma FullyNumbered.hoist (h : p.FullyNumbered) : p.hoist.FullyNumbered :=
  { h.toNumbered.hoist with
    root := fun hn => h.root ((nodes_hoist p).mem_iff.mp hn)
    root_lt := h.root_lt }

lemma FullyNumbered.withEntryPoint (hp : p.FullyNumbered) (h : p.withEntryPoint = .ok p') :
    p'.FullyNumbered := by
  refine { hp.toNumbered.withEntryPoint h with root := ?_, root_lt := ?_ }
  all_goals
    have hlt := hp.root_lt
    rcases withEntryPoint_cases h with ⟨rfl, -⟩ | rfl
  · exact hp.root
  · intro hn
    rcases List.mem_cons.mp ((nodes_withEntryPoint p).mem_iff.mp hn) with heq | hn
    · exact absurd heq (Nat.ne_of_lt (Nat.lt_add_right 2 hlt))
    · rcases List.mem_cons.mp hn with heq | hn
      · exact absurd heq hlt.ne
      · exact hp.root hn
  · exact hp.root_lt
  · exact Nat.lt_add_right 3 hlt

lemma FullyNumbered.ids (h : p.FullyNumbered) : (p.id :: p.allDecls.map (·.node.id)).Nodup := by
  have hsub : ∀ ds : List Decl, (ds.map (·.node.id)).Sublist (ds.flatMap Decl.signature) := by
    intro ds
    induction ds with
    | nil => exact .refl _
    | cons d rest ih =>
      rw [List.map_cons, List.flatMap_cons, ← List.singleton_append]
      exact (List.singleton_sublist.mpr d.node_mem_signature).append ih
  refine List.nodup_cons.mpr ⟨fun hmem => h.root ?_, h.signatures.sublist (hsub _)⟩
  exact List.mem_append_left _ (List.mem_append_left _ ((hsub _).subset hmem))

lemma typeName?_of_tag {n : NodeId} (h : (n, Tag.type name) ∈ d.tags) :
    d.typeName? = some name ∧ n = d.node.id := by
  rcases Decl.of_type_tag h with ⟨o, rfl, rfl, rfl⟩ | ⟨e, rfl, rfl, rfl⟩ <;> exact ⟨rfl, rfl⟩

/-- Only one class or enum has a name. -/
lemma DistinctTypeNames.unique (h : p.DistinctTypeNames) {d' : Decl} (hd : d ∈ p.allDecls)
    (hd' : d' ∈ p.allDecls) (hn : d.typeName? = some name)
    (hn' : d'.typeName? = some name) : d = d' := by
  have hinj : ∀ {ds : List Decl} {name : String}, (ds.filterMap Decl.typeName?).Nodup →
      ∀ d ∈ ds, ∀ d' ∈ ds, d.typeName? = some name → d'.typeName? = some name → d = d' := by
    intro ds name hnd
    induction ds with
    | nil => simp
    | cons e rest ih =>
      -- a name that a later declaration has is not that of the first one
      have hhead : ∀ d ∈ rest, e.typeName? = some name → d.typeName? ≠ some name := by
        intro d hd he hd'
        rw [List.filterMap_cons_some he] at hnd
        exact (List.nodup_cons.mp hnd).1 (List.mem_filterMap.mpr ⟨d, hd, hd'⟩)
      have hrest : (rest.filterMap Decl.typeName?).Nodup :=
        hnd.sublist ((List.sublist_cons_self e rest).filterMap _)
      intro d hd d' hd' hn hn'
      rcases List.mem_cons.mp hd with rfl | hmem
      · rcases List.mem_cons.mp hd' with rfl | hmem'
        · rfl
        · exact absurd hn' (hhead d' hmem' hn)
      · rcases List.mem_cons.mp hd' with rfl | hmem'
        · exact absurd hn (hhead d hmem hn')
        · exact ih hrest d hmem d' hmem' hn hn'
  exact hinj h d hd d' hd' hn hn'

/-- Classes and enums with different names can be told apart. -/
lemma DistinctTypeNames.unambiguous (h : p.DistinctTypeNames) : Unambiguous p.layout := by
  intro name n n' hn hn'
  obtain ⟨d, hd, htag⟩ := List.mem_flatMap.mp hn
  obtain ⟨d', hd', htag'⟩ := List.mem_flatMap.mp hn'
  obtain ⟨hname, rfl⟩ := typeName?_of_tag htag
  obtain ⟨hname', rfl⟩ := typeName?_of_tag htag'
  rw [h.unique hd hd' hname hname']

end Program

namespace Resolve

variable {c1 c3 : Context} {plan : Plan} {p : Program} {s : Resolving}

/-- Where the signatures of all declarations have been resolved. -/
structure Outlined (p : Program) (plan : Plan) (s : Resolving) : Prop extends Begins p plan s where
  heads : Signed p.layout (p.allDecls.flatMap Decl.heads) s.toContext
  annotated : Signed p.layout (p.allDecls.flatMap Decl.annotated) s.toContext
  named : s.Named p.layout
  stack : s.stack = [rootScope]
  home : s.scopeOf? p.id = some rootScope
  root : s.ScopeAt rootScope .program none p.id
  names : ∀ name kind, s.toContext.declared? rootScope name kind =
    lastNamed name (Decl.names p.declarations kind)
  homes : Decl.ScopedAll s.toContext 1 rootScope p.declarations

/-- Where variables and bodies begin to be resolved. -/
structure Starts (p : Program) (plan : Plan) (s : Resolving) : Prop extends Outlined p plan s where
  hierarchy : ∀ o, Decl.object o ∈ p.allDecls → ∀ x, s.nodeType? o.id = some x →
    s.types.inheritsFromItself x = false

/-- What collection leaves at the nodes of declarations. -/
lemma signed_collected {c : Context} (hp : p.Numbered)
    (hr : Runs (Collect.program .fresh p) {} () c) :
    c.Arranged p.layout ∧ Signed p.layout (p.allDecls.flatMap Decl.heads) c := by
  obtain ⟨c1, c2, henter, hb, rfl⟩ := runs_bracket.mp hr
  have h1 : Touches p.layout [p.id] {} c1 :=
    (orderly_empty hp.layout_nodup).touches_enter (List.mem_singleton_self _) henter
  have hu : Untyped p.layout (p.allDecls.flatMap Decl.signature) c1 := by
    intro n _ _
    left
    rw [nodeType?, (ScopeMode.runs_enter henter).2.1]
    rfl
  obtain ⟨h2, hsigned⟩ := Collect.signed_decls h1.arranged (fun _ h => h) hp.signatures hu hb
  have h3 : Touches p.layout [] c2 (ScopeMode.fresh.leave c2) := h2.arranged.touches_leave _
  exact ⟨h3.arranged, hsigned⟩

/-- **The state in which signatures are resolved**, and variables and bodies are not. -/
lemma Begins.outlined (hbegins : Begins p plan s) (hp : p.FullyNumbered)
    (hcollect : Runs (Collect.program .fresh p) {} () c1)
    (henter : Runs (ScopeMode.reopen.enter .program p.id p.location) c1 () c3)
    (hsig : Runs (signatures .reopen p.declarations) c3 () s.toContext) :
    Outlined p plan s ∧ SameScopes { c1 with stack := [rootScope] } s.toContext := by
  obtain ⟨hroot, hat, hnames, hstack, hall⟩ := Collect.scoped_program hp.ids hcollect
  have hin : c1.isInside .function = false := by
    rw [isInside, enclosing?, hstack]
    rfl
  obtain ⟨id, hid, rfl⟩ := runs_reopen (by simp) hin henter
  obtain rfl : id = rootScope := Option.some.inj (hid.symm.trans hroot)
  obtain ⟨harranged, hheads⟩ := signed_collected hp.toNumbered hcollect
  have hnamed : c1.Named p.layout := named_of_heads hheads
  -- opening the scope of the program changes nothing that is said here
  have hopen : ({ c1 with stack := rootScope :: c1.stack } : Context).Arranged p.layout :=
    ⟨harranged.nodup, harranged.lt, harranged.symbols, harranged.shared, harranged.own,
      harranged.nominal⟩
  have hwritten : (p.allDecls.flatMap Decl.written).Nodup :=
    hp.signatures.sublist (Decl.flatMap_written_sublist _)
  obtain ⟨htouch, hsame, hannotated⟩ := signed_signatures (isInside_push hin hat (by simp))
    (hall.same le_rfl rfl rfl) hopen hnamed (fun _ h => h) hwritten hsig
  have hheads : Signed p.layout (p.allDecls.flatMap Decl.heads) s.toContext := by
    have hopened : Signed p.layout (p.allDecls.flatMap Decl.heads)
        { c1 with stack := rootScope :: c1.stack } := hheads
    refine hopened.touches hopen htouch ?_
    have hapart := Decl.heads_apart hp.signatures
    refine ⟨fun l hl => (hapart l hl).1, fun l hl m hm => ⟨(hapart l hl).2 m hm, ?_⟩,
      fun _ _ _ => Decl.flatMap_written_plain hp.layout_nodup fun _ h => h⟩
    rw [p.layout_fst]
    exact (Confined.flatMap fun d _ => d.confined_heads) l hl |>.2 m hm
  refine ⟨?_, ⟨hsame.scopes, hsame.stack.trans (by rw [hstack]), hsame.nodeScopes⟩⟩
  refine { hbegins with
    heads := hheads
    annotated := hannotated
    named := named_of_heads hheads
    stack := hsame.stack.trans (by rw [hstack])
    home := (hsame.scopeOf? p.id).trans hroot
    root := ?_
    names := fun name kind => ?_
    homes := hall.same le_rfl hsame.scopes hsame.nodeScopes }
  · rw [ScopeAt, hsame.view?]
    exact hat
  · rw [declared?, hsame.view?]
    exact hnames name kind

/-- **The state in which variables and bodies begin to be resolved.** -/
lemma Begins.starts (hbegins : Begins p plan s) (hp : p.FullyNumbered)
    (hcollect : Runs (Collect.program .fresh p) {} () c1)
    (henter : Runs (ScopeMode.reopen.enter .program p.id p.location) c1 () c3)
    (hsig : Runs (signatures .reopen p.declarations) c3 () s.toContext)
    (hhier : Runs (hierarchies p.declarations) s.toContext () s.toContext) :
    Starts p plan s ∧ SameScopes { c1 with stack := [rootScope] } s.toContext := by
  obtain ⟨houtlined, hsame⟩ := hbegins.outlined hp hcollect henter hsig
  exact ⟨⟨houtlined, (hbegins.judges.runs hhier).2⟩, hsame⟩

lemma starts_of_program {c2 : Context} (hp : p.FullyNumbered)
    (hcollect : Runs (Collect.program .fresh p) {} () c1) (hr : Runs (program .reopen p) c1 () c2) :
    ∃ plan s s', Starts p plan s ∧ SameScopes { c1 with stack := [rootScope] } s.toContext ∧
      Runs (decls .reopen plan p.declarations) s () s' ∧ c2 = s'.toContext.closeScope := by
  obtain ⟨plan, c3, s, s', hbegins, henter, hsig, hhier, hdecls, rfl⟩ :=
    stages_of_program hp.toNumbered hcollect hr
  obtain ⟨hstarts, hsame⟩ := hbegins.starts hp hcollect henter hsig hhier
  exact ⟨plan, s, s', hstarts, hsame, hdecls, rfl⟩

end Resolve

end Sema
