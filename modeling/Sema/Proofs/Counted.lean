import Sema.Proofs.Assembled

/-!
Assembled programs are numbered as the other theorems about programs ask for: the nodes that have
types are numbered apart from each other and from the program. These are some of the nodes of a
program, each as often as it is among all of them.
-/

namespace Sema

section

variable {a b : NodeId} {l l' : List NodeId} {m m' : Multiset NodeId}

lemma coe_append_le (h : ↑l ≤ m) (h' : ↑l' ≤ m') : ↑(l ++ l') ≤ m + m' := by
  rw [← Multiset.coe_add]
  exact add_le_add h h'

lemma coe_cons_le (h : ↑l ≤ m) : ↑(a :: l) ≤ {a} + m := by
  rw [← Multiset.cons_coe, ← Multiset.singleton_add]
  exact add_le_add le_rfl h

/-- The node of a name has no type. -/
lemma named_le (h : ↑l ≤ m) : ↑l ≤ {b} + {a} + m :=
  h.trans (Multiset.le_add_left _ _)

lemma coe_cons_named_le (h : ↑l ≤ m) : ↑(a :: l) ≤ {b} + {a} + m := by
  rw [add_assoc]
  exact (coe_cons_le h).trans (Multiset.le_add_left _ _)

end

mutual

lemma TypeExpr.nodes_le : ∀ t : TypeExpr, ↑t.nodes ≤ t.ids
  | .named _ _ arguments => coe_cons_named_le (TypeExpr.nodesAll_le arguments)
  | .function _ parameters none =>
    coe_cons_le (coe_append_le (TypeExpr.nodesAll_le parameters) le_rfl)
  | .function _ parameters (some returns) =>
    coe_cons_le (coe_append_le (TypeExpr.nodesAll_le parameters) (TypeExpr.nodes_le returns))
  | .record _ fields => coe_cons_le (FieldType.nodesAll_le fields)
  | .inlineEnum _ items => coe_cons_le (EnumItem.nodesAll_le items)

lemma TypeExpr.nodesAll_le : ∀ ts : List TypeExpr, ↑(TypeExpr.nodesAll ts) ≤ TypeExpr.idsAll ts
  | [] => le_rfl
  | t :: rest => coe_append_le (TypeExpr.nodes_le t) (TypeExpr.nodesAll_le rest)

lemma FieldType.nodesAll_le : ∀ fs : List FieldType, ↑(FieldType.nodesAll fs) ≤ FieldType.idsAll fs
  | [] => le_rfl
  | ⟨_, _, t⟩ :: rest =>
    coe_append_le (named_le (TypeExpr.nodes_le t)) (FieldType.nodesAll_le rest)

lemma EnumItem.nodesAll_le : ∀ is : List EnumItem, ↑(EnumItem.nodesAll is) ≤ EnumItem.idsAll is
  | [] => le_rfl
  | ⟨_, _, payload⟩ :: rest =>
    coe_append_le (coe_cons_named_le (TypeExpr.nodesAll_le payload)) (EnumItem.nodesAll_le rest)

end

mutual

lemma Expr.nodes_le : ∀ e : Expr, ↑e.nodes ≤ e.ids
  | .literal .. | .self _ | .super _ | .identifier _ => le_rfl
  | .shorthand .. => Multiset.le_add_left _ _
  | .call _ callee arguments =>
    coe_cons_le (coe_append_le (Expr.nodes_le callee) (Expr.nodesAll_le arguments))
  | .binary _ _ left right | .index _ left right | .assign _ left right =>
    coe_cons_le (coe_append_le (Expr.nodes_le left) (Expr.nodes_le right))
  | .unary _ _ operand => coe_cons_le (Expr.nodes_le operand)
  | .member _ object _ => coe_cons_named_le (Expr.nodes_le object)
  | .array _ elements => coe_cons_le (Expr.nodesAll_le elements)
  | .record _ fields => coe_cons_le (FieldValue.nodesAll_le fields)

lemma Expr.nodesAll_le : ∀ es : List Expr, ↑(Expr.nodesAll es) ≤ Expr.idsAll es
  | [] => le_rfl
  | e :: rest => coe_append_le (Expr.nodes_le e) (Expr.nodesAll_le rest)

lemma FieldValue.nodesAll_le :
    ∀ fs : List FieldValue, ↑(FieldValue.nodesAll fs) ≤ FieldValue.idsAll fs
  | [] => le_rfl
  | ⟨_, _, value⟩ :: rest =>
    coe_append_le (named_le (Expr.nodes_le value)) (FieldValue.nodesAll_le rest)

end

lemma TypeExpr.nodes?_le : ∀ t : Option TypeExpr, ↑(TypeExpr.nodes? t) ≤ TypeExpr.ids? t
  | none => le_rfl
  | some t => t.nodes_le

lemma Expr.nodes?_le : ∀ e : Option Expr, ↑(Expr.nodes? e) ≤ Expr.ids? e
  | none => le_rfl
  | some e => e.nodes_le

lemma VariableDecl.nodes_le (v : VariableDecl) : ↑v.nodes ≤ v.ids :=
  coe_cons_named_le (coe_append_le (TypeExpr.nodes?_le v.type) (Expr.nodes?_le v.value))

mutual

lemma Stmt.nodes_le : ∀ s : Stmt, ↑s.nodes ≤ s.ids
  | .expression _ value => coe_cons_le value.nodes_le
  | .var v => v.nodes_le
  | .ret _ value => coe_cons_le (Expr.nodes?_le value)
  | .branch _ test yes none => by
    simpa [Stmt.nodes, Stmt.ids] using coe_cons_le
      (coe_append_le test.nodes_le (Block.nodes_le yes))
  | .branch _ test yes (some no) =>
    coe_cons_le (coe_append_le test.nodes_le
      (coe_append_le (Block.nodes_le yes) (Block.nodes_le no)))
  | .loop _ test body => coe_cons_le (coe_append_le test.nodes_le (Block.nodes_le body))
  | .block b => Block.nodes_le b

lemma Stmt.nodesAll_le : ∀ ss : List Stmt, ↑(Stmt.nodesAll ss) ≤ Stmt.idsAll ss
  | [] => le_rfl
  | s :: rest => coe_append_le (Stmt.nodes_le s) (Stmt.nodesAll_le rest)

lemma Block.nodes_le : ∀ b : Block, ↑b.nodes ≤ b.ids
  | ⟨_, statements⟩ => coe_cons_le (Stmt.nodesAll_le statements)

end

lemma Parameter.nodes_le :
    ∀ qs : List Parameter, ↑(qs.flatMap Parameter.nodes) ≤ Parameter.idsAll qs
  | [] => le_rfl
  | q :: rest => by
    rw [List.flatMap_cons, idsAll, List.map_cons, List.sum_cons]
    exact coe_append_le (coe_cons_named_le q.type.nodes_le) (Parameter.nodes_le rest)

/-- The nodes of signatures and of what is inside, for the declarations `ds`. -/
def Decl.typed (ds : List Decl) : List NodeId :=
  ds.flatMap Decl.signature ++ ds.flatMap Decl.inside

lemma Decl.typed_singleton (d : Decl) : Decl.typed [d] = d.signature ++ d.inside := by
  simp [Decl.typed]

mutual

lemma Decl.typed_le : ∀ d : Decl, ↑(Decl.typed d.all) ≤ d.ids
  | .object c => ClassDecl.typed_le c
  | .function f => by
    rw [Decl.all, Decl.typed_singleton, Decl.signature, List.cons_append, List.append_assoc]
    exact coe_cons_named_le (coe_append_le (Parameter.nodes_le f.parameters)
      (coe_append_le (TypeExpr.nodes?_le f.returns) f.body.nodes_le))
  | .var v => by
    rw [Decl.all, Decl.typed_singleton]
    exact v.nodes_le
  | .enum e => by
    rw [Decl.all, Decl.typed_singleton, Decl.inside, List.append_nil]
    exact coe_cons_named_le (EnumItem.nodesAll_le e.items)
  | .foreign f => by
    rw [Decl.all, Decl.typed_singleton, Decl.inside, List.append_nil]
    exact coe_cons_named_le
      (coe_append_le (Parameter.nodes_le f.parameters) (TypeExpr.nodes?_le f.returns))

lemma ClassDecl.typed_le : ∀ c : ClassDecl, ↑(Decl.typed (.object c :: c.all)) ≤ c.ids
  | ⟨_, _, base, members⟩ => by
    rw [Decl.typed, List.flatMap_cons, List.append_assoc]
    exact coe_cons_named_le (coe_append_le (TypeExpr.nodes?_le base) (Decl.typedAll_le members))

lemma Decl.typedAll_le : ∀ ds : List Decl, ↑(Decl.typed (Decl.allOf ds)) ≤ Decl.idsAll ds
  | [] => le_rfl
  | d :: rest => by
    refine le_trans (le_of_eq ?_) (add_le_add (Decl.typed_le d) (Decl.typedAll_le rest))
    simp only [Decl.allOf, Decl.typed, List.flatMap_append, ← Multiset.coe_add]
    abel

end

namespace Program

variable {p : Program}

/-- **Numbers that are counted keep nodes apart.** -/
lemma Counted.fullyNumbered (h : p.Counted) : p.FullyNumbered := by
  have hle : ∀ n, (p.id :: p.nodes).count n ≤ p.ids.count n := by
    intro n
    rw [← Multiset.coe_count]
    exact Multiset.count_le_of_le n (coe_cons_le (coe_append_le (Decl.typedAll_le p.declarations)
      (Stmt.nodesAll_le p.statements)))
  have hcount : ∀ n, p.ids.count n = (List.range' 1 (p.nextId - 1)).count n := by
    intro n
    rw [h.2, Multiset.coe_count]
  have hnodup : (p.id :: p.nodes).Nodup := by
    refine List.nodup_iff_count_le_one.2 fun n => (hle n).trans ?_
    rw [hcount]
    exact List.nodup_iff_count_le_one.1 List.nodup_range' n
  have hlt : ∀ n ∈ p.id :: p.nodes, n < p.nextId := by
    intro n hn
    have hpos := (List.count_pos_iff.2 hn).trans_le (hle n)
    rw [hcount, List.count_pos_iff, List.mem_range'_1] at hpos
    lia
  obtain ⟨hroot, hnodes⟩ := List.nodup_cons.1 hnodup
  exact { nodup := hnodes
          lt_nextId := fun n hn => hlt n (List.mem_cons_of_mem p.id hn)
          root := hroot
          root_lt := hlt p.id List.mem_cons_self }

/-- Every assembled program is fully numbered. -/
theorem Assembled.fullyNumbered (h : p.Assembled) : p.FullyNumbered :=
  h.counted.fullyNumbered

end Program

end Sema
