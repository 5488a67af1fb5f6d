import StageScript.Proofs.Unfolding
import StageScript.Syntax.SExpression

set_option autoImplicit false

/-! # The order of the nodes of a layout

`Expression.ofTree` puts the nodes of a tree where a reader is done with them: every subtree is a
block that ends with its root, and the blocks of the operands of a node stand one after the other
right before it. `Expression.Blocks` says this of a list of nodes, and who refers to whom can be
read off it: which positions are below another one (`Blocks.reaches_iff`), and that no two nodes
share an operand (`Blocks.count_references`). Main statement: `Expression.postOrder_ofTree`. -/

namespace StageScript

namespace Expression

variable {e : Expression}

/-! ## Blocks -/

/-- From `first` up to `stop` stand the nodes below the positions: those below the first one with it
    behind them, then those below the next one. -/
inductive Blocks (e : Expression) : Nat → List Nat → Nat → Prop where
  | nil (first : Nat) : Blocks e first [] first
  | cons {first i stop : Nat} {n : Node} {positions : List Nat} (hnode : e.nodes[i]? = some n)
    (hbelow : Blocks e first n.references i) (hbehind : Blocks e (i + 1) positions stop) :
    Blocks e first (i :: positions) stop

namespace Blocks

variable {first mid stop i : Nat} {positions others : List Nat}

theorem le (h : e.Blocks first positions stop) : first ≤ stop := by
  induction h with
  | nil => exact le_rfl
  | cons _ _ _ ihbelow ihbehind => omega

/-- A node makes one block of those below it. -/
theorem singleton {n : Node} (hnode : e.nodes[i]? = some n) (h : e.Blocks first n.references i) :
    e.Blocks first [i] (i + 1) := .cons hnode h (.nil _)

theorem append (h : e.Blocks first positions mid) (h' : e.Blocks mid others stop) :
    e.Blocks first (positions ++ others) stop := by
  induction h with
  | nil => exact h'
  | cons hnode hbelow _ _ ih => exact .cons hnode hbelow (ih h')

/-- Every position has a block of its own. -/
theorem exists_block (h : e.Blocks first positions stop) (hfirst : first ≤ i) (hstop : i < stop) :
    ∃ start, first ≤ start ∧ e.Blocks start [i] (i + 1) := by
  induction h with
  | nil => omega
  | @cons first j stop n positions hnode hbelow hbehind ihbelow ihbehind =>
    by_cases hlt : i < j
    · exact ihbelow hfirst hlt
    by_cases heq : i = j
    · subst heq
      exact ⟨first, le_rfl, .singleton hnode hbelow⟩
    · have := hbelow.le
      obtain ⟨start, hstart, hblock⟩ := ihbehind (by omega) hstop
      exact ⟨start, by omega, hblock⟩

/-- What is below the positions is what stands in their blocks. -/
theorem reaches_iff (h : e.Blocks first positions stop) {j : Nat} :
    (∃ i ∈ positions, Relation.ReflTransGen e.Refers i j) ↔ first ≤ j ∧ j < stop := by
  induction h with
  | nil =>
    simp only [List.not_mem_nil, false_and, exists_false, false_iff]
    omega
  | @cons first i stop n positions hnode hbelow hbehind ihbelow ihbehind =>
    have hi := hbelow.le
    have hstop := hbehind.le
    have hrefers : ∀ k, e.Refers i k ↔ k ∈ n.references := by
      intro k
      simp [Refers, hnode]
    have hreach : Relation.ReflTransGen e.Refers i j ↔ first ≤ j ∧ j ≤ i := by
      rw [Relation.ReflTransGen.cases_head_iff]
      simp only [hrefers, ihbelow]
      constructor
      · rintro (rfl | hj)
        · omega
        · omega
      · intro hj
        by_cases heq : i = j
        · exact .inl heq
        · exact .inr (by omega)
    simp only [List.mem_cons, exists_eq_or_imp, hreach, ihbehind]
    omega

end Blocks

/-! ## References -/

/-- All references of the nodes, those of one node after those of the nodes before it. -/
def references (e : Expression) : List Nat := e.nodes.toList.flatMap Node.references

/-- How often the first nodes refer to a position. -/
def referencesTo (e : Expression) (j count : Nat) : Nat :=
  ((e.nodes.toList.take count).flatMap Node.references).count j

theorem referencesTo_succ {i : Nat} {n : Node} (h : e.nodes[i]? = some n) (j : Nat) :
    e.referencesTo j (i + 1) = e.referencesTo j i + n.references.count j := by
  have hlist : e.nodes.toList[i]? = some n := by rw [Array.getElem?_toList, h]
  rw [referencesTo, referencesTo, List.take_add_one, hlist]
  simp [List.count_append]

/-- The positions of the blocks and the references of the nodes in them are all the positions there,
    each of them once. -/
theorem Blocks.count_references {first stop : Nat} {positions : List Nat}
    (h : e.Blocks first positions stop) (j : Nat) :
    positions.count j + e.referencesTo j stop =
      e.referencesTo j first + if first ≤ j ∧ j < stop then 1 else 0 := by
  induction h with
  | nil first =>
    rw [if_neg (by omega), List.count_nil, Nat.zero_add, Nat.add_zero]
  | @cons first i stop n positions hnode hbelow hbehind ihbelow ihbehind =>
    have hi := hbelow.le
    have hstop := hbehind.le
    rw [referencesTo_succ hnode] at ihbehind
    rw [List.count_cons]
    by_cases hj : i = j
    · subst hj
      simp only [beq_self_eq_true, if_true] at ihbelow ihbehind ⊢
      split_ifs at ihbelow ihbehind ⊢ <;> omega
    · simp only [beq_iff_eq, hj, if_false] at ihbelow ihbehind ⊢
      split_ifs at ihbelow ihbehind ⊢ <;> omega

/-! ## Layouts -/

theorem references_node (o : Operator) (lhs rhs : Nat) :
    (o.node lhs rhs).references = [lhs, rhs] := by
  cases o <;> rfl

/-- A layout puts a block behind the given nodes. -/
theorem blocks_layOut (e : Expression) :
    (∀ (t : Tree) (nodes : Array Node), e.StartsWith (t.layOut nodes) →
      e.Blocks nodes.size [(t.layOut nodes).size - 1] (t.layOut nodes).size) ∧
    ∀ (a : TreeArguments) (nodes : Array Node), e.StartsWith (a.layOut nodes).1 →
      e.Blocks nodes.size ((a.layOut nodes).2.map (·.value)) (a.layOut nodes).1.size := by
  refine Tree.induct ?_ ?_ ?_ ?_ ?_ ?_
  · intro literal line nodes h
    rw [Tree.layOut] at h ⊢
    rw [Array.size_push, Nat.add_sub_cancel]
    exact .singleton h.of_push.2 (.nil _)
  · intro inner ih nodes h
    simp only [Tree.layOut] at h ⊢
    rw [Array.size_push, Nat.add_sub_cancel]
    exact .singleton h.of_push.2 (ih nodes h.of_push.1)
  · intro o lhs rhs ihl ihr nodes h
    rw [Tree.layOut_join] at h ⊢
    rw [Array.size_push, Nat.add_sub_cancel]
    have hleft := ihl nodes ((StartsWith.of_layOut e).1 rhs _ h.of_push.1)
    refine .singleton h.of_push.2 ?_
    rw [references_node]
    exact hleft.append (ihr (lhs.layOut nodes) h.of_push.1)
  · intro name arguments line ih nodes h
    simp only [Tree.layOut] at h ⊢
    rw [Array.size_push, Nat.add_sub_cancel]
    exact .singleton h.of_push.2 (ih nodes h.of_push.1)
  · intro nodes _
    exact .nil _
  · intro key value rest ih ihs nodes h
    simp only [TreeArguments.layOut] at h ⊢
    exact (ih nodes ((StartsWith.of_layOut e).2 rest _ h)).append (ihs (value.layOut nodes) h)

/-- A tree has no more nodes than symbols. -/
theorem size_layOut_le :
    (∀ (t : Tree) (nodes : Array Node), (t.layOut nodes).size ≤ nodes.size + t.yield.length) ∧
      ∀ (a : TreeArguments) (nodes : Array Node),
        (a.layOut nodes).1.size ≤ nodes.size + a.yield.length := by
  refine Tree.induct ?_ ?_ ?_ ?_ ?_ ?_
  · intro literal line nodes
    simp [Tree.layOut, Tree.yield]
  · intro inner ih nodes
    have := ih nodes
    simp only [Tree.layOut, Tree.yield, Array.size_push, List.length_append, List.length_cons]
    omega
  · intro o lhs rhs ihl ihr nodes
    have := ihl nodes
    have := ihr (lhs.layOut nodes)
    rw [Tree.layOut_join, Tree.yield_join, Array.size_push, List.length_append, List.length_cons]
    omega
  · intro name arguments line ih nodes
    have := ih nodes
    simp only [Tree.layOut, Tree.yield, Array.size_push, List.length_append, List.length_cons]
    omega
  · intro nodes
    exact Nat.le_add_right _ _
  · intro key value rest ih ihs nodes
    have := ih nodes
    have := ihs (value.layOut nodes)
    simp only [TreeArguments.layOut, TreeArguments.yield, List.length_append]
    omega

/-- The nodes stand in the order in which a reader is done with them. -/
structure PostOrder (e : Expression) : Prop where
  /-- A node refers to nodes before it only. -/
  back : RefersBack e.nodes
  last : e.root + 1 = e.nodes.size
  /-- Every node but the root is referred to once. -/
  once : ∀ i < e.nodes.size, i ≠ e.root → e.references.count i = 1
  /-- The nodes below a node stand right before it, and these are the blocks of its operands or
      arguments in their order. -/
  block : ∀ i < e.nodes.size, ∃ first, e.Blocks first [i] (i + 1) ∧
    ∀ j, Relation.ReflTransGen e.Refers i j ↔ first ≤ j ∧ j ≤ i

/-- A tree is laid out in that order. -/
theorem postOrder_ofTree (t : Tree) : (ofTree t).PostOrder := by
  have hblocks : (ofTree t).Blocks 0 [(ofTree t).root] (ofTree t).nodes.size :=
    (blocks_layOut (ofTree t)).1 t #[] fun _ _ => rfl
  refine ⟨refersBack_layOut.1 t #[] (by simp [RefersBack]), ?_, fun i hi hroot => ?_,
    fun i hi => ?_⟩
  · have := t.size_layOut_pos #[]
    simp only [ofTree]
    omega
  · have hcount := hblocks.count_references i
    have hzero : (ofTree t).referencesTo i 0 = 0 := rfl
    rw [List.count_singleton, if_neg (by simpa using Ne.symm hroot), if_pos ⟨Nat.zero_le _, hi⟩,
      hzero] at hcount
    rw [referencesTo, ← Array.length_toList, List.take_length] at hcount
    rw [references]
    omega
  · obtain ⟨first, -, hblock⟩ := hblocks.exists_block (Nat.zero_le _) hi
    refine ⟨first, hblock, fun j => ?_⟩
    have hreach := hblock.reaches_iff (j := j)
    simp only [List.mem_singleton, exists_eq_left] at hreach
    rw [hreach]
    omega

end Expression

/-! ## Writing a tree -/

mutual

/-- The S-expression of a tree. -/
def Tree.sexpr : Tree → String
  | .atom literal _ => literal.sexpr
  | .group inner => "(group " ++ inner.sexpr ++ ")"
  | .comparison operator lhs rhs => SExpression.ternary operator.symbol lhs.sexpr rhs.sexpr
  | .connective operator lhs rhs => SExpression.ternary operator.symbol lhs.sexpr rhs.sexpr
  | .call name arguments _ => "(call " ++ name ++ String.join arguments.sexprs ++ ")"

/-- The S-expressions of arguments. -/
def TreeArguments.sexprs : TreeArguments → List String
  | .nil => []
  | .cons key value rest => SExpression.argument key value.sexpr :: rest.sexprs

end

/-- Arguments are written as the trees that are found for them. -/
theorem TreeArguments.sexprs_of_collect? {find : Nat → Option Tree} {write : Nat → String}
    (hwrite : ∀ j t, find j = some t → write j = t.sexpr) {arguments : List NodeArgument}
    {values : TreeArguments} (h : collect? find arguments = some values) :
    arguments.map (fun a => SExpression.argument a.key (write a.value)) = values.sexprs := by
  induction arguments generalizing values with
  | nil =>
    obtain rfl := Option.some.inj h
    rfl
  | cons a rest ih =>
    obtain ⟨t, ht, h⟩ := Option.bind_eq_some_iff.1 h
    obtain ⟨others, hothers, h⟩ := Option.bind_eq_some_iff.1 h
    obtain rfl := Option.some.inj h
    rw [List.map_cons, ih hothers, hwrite _ _ ht, sexprs]

namespace Expression

variable {e : Expression}

/-- Where there is a tree, it is what is written. -/
theorem sexprWithin_of_treeWithin? {fuel position : Nat} {t : Tree}
    (h : e.treeWithin? fuel position = some t) : e.sexprWithin fuel position = t.sexpr := by
  induction fuel generalizing position t with
  | zero => cases h
  | succ fuel ih =>
    obtain ⟨n, hn, hunfolds⟩ := treeWithin?_succ.1 h
    rw [sexprWithin, hn]
    cases hunfolds with
    | atom literal line => rw [Tree.sexpr]
    | group hinner => rw [Tree.sexpr, ← ih hinner]
    | comparison c hl hr => rw [Tree.sexpr, ← ih hl, ← ih hr]
    | connective c hl hr => rw [Tree.sexpr, ← ih hl, ← ih hr]
    | call name line hvalues =>
      dsimp only
      rw [Tree.sexpr, TreeArguments.sexprs_of_collect? (fun _ _ => ih) hvalues]

/-- The subtree below a position is there, and is what the position is taken for: its line is the
    line of the position, its S-expression is written and it is evaluated. -/
structure Found (e : Expression) (i : Nat) (t : Tree) : Prop where
  tree : e.treeWithin? e.nodes.size i = some t
  line : e.lineAt? i = some t.line
  sexpr : e.sexprWithin e.nodes.size i = t.sexpr
  evaluate : e.evaluateWithin e.nodes.size i = t.evaluate

theorem found_of_treeWithin? {i : Nat} {t : Tree} (h : e.treeWithin? e.nodes.size i = some t) :
    e.Found i t where
  tree := h
  line := lineWithin_of_treeWithin? h le_rfl
  sexpr := sexprWithin_of_treeWithin? h
  evaluate := evaluateWithin_of_treeWithin? h le_rfl

/-- No position of a post-order leads to a missing node or in a circle. -/
theorem PostOrder.exists_found (h : e.PostOrder) {i : Nat} (hi : i < e.nodes.size) :
    ∃ t, e.Found i t := by
  obtain ⟨t, ht⟩ := (sound_of_refersBack h.back).exists_treeWithin? e.nodes.size i [] hi .nil
    (by simp) (Nat.le_add_right _ _)
  exact ⟨t, found_of_treeWithin? ht⟩

end Expression

end StageScript
