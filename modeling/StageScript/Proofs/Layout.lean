import StageScript.Syntax.Expression
import StageScript.Proofs.Spelling

set_option autoImplicit false

/-! # Laying a tree out and unfolding it

`Expression.ofTree` puts every node behind its operands and arguments, so that a list of nodes that
starts with the layout of a tree unfolds to that tree from where the layout ends. Main statement:
`Expression.tree?_ofTree`, unfolding undoes laying out. -/

namespace StageScript

/-! ## Nodes of a layout -/

/-- The node of an operator between two positions. -/
def Operator.node (lhs rhs : Nat) : Operator → Node
  | comparison c => .comparison c lhs rhs
  | connective c => .connective c lhs rhs

theorem Tree.layOut_join (o : Operator) (lhs rhs : Tree) (nodes : Array Node) :
    (o.join lhs rhs).layOut nodes =
      (rhs.layOut (lhs.layOut nodes)).push
        (o.node ((lhs.layOut nodes).size - 1) ((rhs.layOut (lhs.layOut nodes)).size - 1)) := by
  cases o <;> rfl

/-- A tree adds at least one node. -/
theorem size_layOut :
    (∀ (t : Tree) (nodes : Array Node), nodes.size < (t.layOut nodes).size) ∧
      ∀ (a : TreeArguments) (nodes : Array Node), nodes.size ≤ (a.layOut nodes).1.size := by
  refine Tree.induct ?_ ?_ ?_ ?_ ?_ ?_
  · intro literal line nodes
    simp [Tree.layOut]
  · intro inner ih nodes
    have := ih nodes
    simp only [Tree.layOut, Array.size_push]
    omega
  · intro o lhs rhs ihl ihr nodes
    have := ihl nodes
    have := ihr (lhs.layOut nodes)
    rw [Tree.layOut_join, Array.size_push]
    omega
  · intro name arguments line ih nodes
    have := ih nodes
    simp only [Tree.layOut, Array.size_push]
    omega
  · intro nodes
    exact Nat.le_refl _
  · intro key value rest ih ihs nodes
    have := ih nodes
    have := ihs (value.layOut nodes)
    simp only [TreeArguments.layOut]
    omega

/-! ## Unfolding -/

namespace Expression

/-- The list of nodes of the expression starts with the given nodes. -/
def StartsWith (e : Expression) (nodes : Array Node) : Prop :=
  ∀ i, i < nodes.size → e.nodes[i]? = nodes[i]?

theorem StartsWith.of_push {e : Expression} {nodes : Array Node} {n : Node}
    (h : e.StartsWith (nodes.push n)) :
    e.StartsWith nodes ∧ e.nodes[nodes.size]? = some n := by
  constructor
  · intro i hi
    rw [h i (by rw [Array.size_push]; omega), Array.getElem?_push, if_neg (by omega)]
  · rw [h _ (by simp), Array.getElem?_push, if_pos rfl]

/-- A layout only adds nodes behind the given ones. -/
theorem StartsWith.of_layOut (e : Expression) :
    (∀ (t : Tree) (nodes : Array Node), e.StartsWith (t.layOut nodes) → e.StartsWith nodes) ∧
      ∀ (a : TreeArguments) (nodes : Array Node),
        e.StartsWith (a.layOut nodes).1 → e.StartsWith nodes := by
  refine Tree.induct ?_ ?_ ?_ ?_ ?_ ?_
  · intro literal line nodes h
    exact h.of_push.1
  · intro inner ih nodes h
    exact ih nodes h.of_push.1
  · intro o lhs rhs ihl ihr nodes h
    rw [Tree.layOut_join] at h
    exact ihl nodes (ihr _ h.of_push.1)
  · intro name arguments line ih nodes h
    exact ih nodes h.of_push.1
  · intro nodes h
    exact h
  · intro key value rest ih ihs nodes h
    exact ih nodes (ihs _ h)

theorem treeWithin?_join {e : Expression} {fuel position lhs rhs : Nat} {o : Operator}
    {left right : Tree} (hnode : e.nodes[position]? = some (o.node lhs rhs))
    (hleft : e.treeWithin? fuel lhs = some left) (hright : e.treeWithin? fuel rhs = some right) :
    e.treeWithin? (fuel + 1) position = some (o.join left right) := by
  rw [treeWithin?, hnode]
  cases o <;> simp [Operator.node, Operator.join, hleft, hright]

/-- Where the layout of a tree ends, the tree is found within as many levels as it has nodes. -/
theorem treeWithin?_layOut (e : Expression) :
    (∀ (t : Tree) (nodes : Array Node) (fuel : Nat), e.StartsWith (t.layOut nodes) →
      (t.layOut nodes).size ≤ nodes.size + fuel →
      e.treeWithin? fuel ((t.layOut nodes).size - 1) = some t) ∧
    ∀ (a : TreeArguments) (nodes : Array Node) (fuel : Nat), e.StartsWith (a.layOut nodes).1 →
      (a.layOut nodes).1.size ≤ nodes.size + fuel →
      TreeArguments.collect? (e.treeWithin? fuel) (a.layOut nodes).2 = some a := by
  refine Tree.induct ?_ ?_ ?_ ?_ ?_ ?_
  · intro literal line nodes fuel h hfuel
    rw [Tree.layOut] at h hfuel ⊢
    rw [Array.size_push] at hfuel
    obtain ⟨fuel, rfl⟩ : ∃ n, fuel = n + 1 := ⟨fuel - 1, by omega⟩
    rw [Array.size_push, Nat.add_sub_cancel, treeWithin?, h.of_push.2]
  · intro inner ih nodes fuel h hfuel
    have := size_layOut.1 inner nodes
    simp only [Tree.layOut] at h hfuel ⊢
    rw [Array.size_push] at hfuel
    obtain ⟨fuel, rfl⟩ : ∃ n, fuel = n + 1 := ⟨fuel - 1, by omega⟩
    rw [Array.size_push, Nat.add_sub_cancel, treeWithin?, h.of_push.2]
    simp [ih nodes fuel h.of_push.1 (by omega)]
  · intro o lhs rhs ihl ihr nodes fuel h hfuel
    have := size_layOut.1 lhs nodes
    have := size_layOut.1 rhs (lhs.layOut nodes)
    rw [Tree.layOut_join] at h hfuel ⊢
    rw [Array.size_push] at hfuel
    obtain ⟨fuel, rfl⟩ : ∃ n, fuel = n + 1 := ⟨fuel - 1, by omega⟩
    rw [Array.size_push, Nat.add_sub_cancel]
    refine treeWithin?_join h.of_push.2 ?_ ?_
    · exact ihl nodes fuel ((StartsWith.of_layOut e).1 rhs _ h.of_push.1) (by omega)
    · exact ihr (lhs.layOut nodes) fuel h.of_push.1 (by omega)
  · intro name arguments line ih nodes fuel h hfuel
    have := size_layOut.2 arguments nodes
    simp only [Tree.layOut] at h hfuel ⊢
    rw [Array.size_push] at hfuel
    obtain ⟨fuel, rfl⟩ : ∃ n, fuel = n + 1 := ⟨fuel - 1, by omega⟩
    rw [Array.size_push, Nat.add_sub_cancel, treeWithin?, h.of_push.2]
    simp [ih nodes fuel h.of_push.1 (by omega)]
  · intro nodes fuel _ _
    rfl
  · intro key value rest ih ihs nodes fuel h hfuel
    have := size_layOut.1 value nodes
    have := size_layOut.2 rest (value.layOut nodes)
    simp only [TreeArguments.layOut] at h hfuel ⊢
    have hvalue := ih nodes fuel ((StartsWith.of_layOut e).2 rest _ h) (by omega)
    have hrest := ihs (value.layOut nodes) fuel h (by omega)
    simp [TreeArguments.collect?, hvalue, hrest]

/-- Unfolding a layout gives the tree back. -/
theorem tree?_ofTree (t : Tree) : (ofTree t).tree? = some t :=
  (treeWithin?_layOut (ofTree t)).1 t #[] _ (fun _ _ => rfl) (by simp [ofTree])

end Expression

end StageScript
