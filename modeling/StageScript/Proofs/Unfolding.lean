import Mathlib.Data.List.Perm.Subperm
import Mathlib.Data.List.Range
import Mathlib.Logic.Relation
import StageScript.Proofs.Layout
import StageScript.Proofs.Trace

set_option autoImplicit false

/-! # Evaluating what a list of nodes unfolds to

A list of nodes is sound if its nodes refer to nodes only and no node leads back to itself. Then it
spells out a tree from its root (`Expression.Sound.exists_tree?`), and evaluating the expression is
evaluating that tree (`Expression.evaluate_of_tree?`): neither the bound of the evaluation nor the
values that it has for missing nodes are ever met. -/

namespace StageScript

/-! ## Sound lists of nodes -/

/-- The positions that a node refers to. -/
def Node.references : Node → List Nat
  | atom _ _ => []
  | group inner => [inner]
  | comparison _ lhs rhs => [lhs, rhs]
  | connective _ lhs rhs => [lhs, rhs]
  | call _ arguments _ => arguments.map (·.value)

namespace Expression

/-- The node at a position refers to another position. -/
def Refers (e : Expression) (i j : Nat) : Prop := ∃ n, e.nodes[i]? = some n ∧ j ∈ n.references

/-- The nodes refer to nodes, and no chain of references comes back to where it starts. -/
structure Sound (e : Expression) : Prop where
  in_range : ∀ i j, e.Refers i j → j < e.nodes.size
  acyclic : ∀ i, ¬Relation.TransGen e.Refers i i

end Expression

/-! ## One level -/

/-- A node becomes a tree when the trees at its positions are given. -/
inductive Node.Unfolds (find : Nat → Option Tree) : Node → Tree → Prop where
  | atom (literal : Literal) (line : Nat) : Unfolds find (.atom literal line) (.atom literal line)
  | group {inner : Nat} {t : Tree} (h : find inner = some t) :
    Unfolds find (.group inner) (.group t)
  | comparison (c : Comparison) {lhs rhs : Nat} {left right : Tree} (hl : find lhs = some left)
    (hr : find rhs = some right) : Unfolds find (.comparison c lhs rhs) (.comparison c left right)
  | connective (c : Connective) {lhs rhs : Nat} {left right : Tree} (hl : find lhs = some left)
    (hr : find rhs = some right) : Unfolds find (.connective c lhs rhs) (.connective c left right)
  | call (name : String) {arguments : List NodeArgument} {values : TreeArguments} (line : Nat)
    (h : TreeArguments.collect? find arguments = some values) :
    Unfolds find (.call name arguments line) (.call name values line)

theorem TreeArguments.exists_collect? {find : Nat → Option Tree} {arguments : List NodeArgument}
    (h : ∀ a ∈ arguments, ∃ t, find a.value = some t) :
    ∃ values, collect? find arguments = some values := by
  induction arguments with
  | nil => exact ⟨.nil, rfl⟩
  | cons a rest ih =>
    obtain ⟨t, ht⟩ := h a List.mem_cons_self
    obtain ⟨values, hvalues⟩ := ih fun b hb => h b (List.mem_cons_of_mem _ hb)
    exact ⟨.cons a.key t values, by simp [collect?, ht, hvalues]⟩

/-- A node becomes a tree as soon as all its positions do. -/
theorem Node.exists_unfolds {find : Nat → Option Tree} {n : Node}
    (h : ∀ j ∈ n.references, ∃ t, find j = some t) : ∃ t, n.Unfolds find t := by
  cases n with
  | atom literal line => exact ⟨_, .atom literal line⟩
  | group inner =>
    obtain ⟨t, ht⟩ := h inner (by simp [references])
    exact ⟨_, .group ht⟩
  | comparison c lhs rhs =>
    obtain ⟨left, hl⟩ := h lhs (by simp [references])
    obtain ⟨right, hr⟩ := h rhs (by simp [references])
    exact ⟨_, .comparison c hl hr⟩
  | connective c lhs rhs =>
    obtain ⟨left, hl⟩ := h lhs (by simp [references])
    obtain ⟨right, hr⟩ := h rhs (by simp [references])
    exact ⟨_, .connective c hl hr⟩
  | call name arguments line =>
    obtain ⟨values, hvalues⟩ : ∃ values, TreeArguments.collect? find arguments = some values :=
      TreeArguments.exists_collect? fun a ha => h a.value (List.mem_map_of_mem ha)
    exact ⟨_, .call name line hvalues⟩

namespace Expression

variable {e : Expression}

theorem treeWithin?_succ {fuel position : Nat} {t : Tree} :
    e.treeWithin? (fuel + 1) position = some t ↔
      ∃ n, e.nodes[position]? = some n ∧ n.Unfolds (e.treeWithin? fuel) t := by
  rw [treeWithin?]
  cases e.nodes[position]? with
  | none => simp
  | some n =>
    simp only [Option.some.injEq, exists_eq_left']
    constructor
    · intro h
      cases n with
      | atom literal line =>
        obtain rfl := Option.some.inj h
        exact .atom literal line
      | group inner =>
        obtain ⟨t, ht, rfl⟩ := Option.map_eq_some_iff.1 h
        exact .group ht
      | comparison c lhs rhs =>
        obtain ⟨left, hl, h⟩ := Option.bind_eq_some_iff.1 h
        obtain ⟨right, hr, h⟩ := Option.bind_eq_some_iff.1 h
        obtain rfl := Option.some.inj h
        exact .comparison c hl hr
      | connective c lhs rhs =>
        obtain ⟨left, hl, h⟩ := Option.bind_eq_some_iff.1 h
        obtain ⟨right, hr, h⟩ := Option.bind_eq_some_iff.1 h
        obtain rfl := Option.some.inj h
        exact .connective c hl hr
      | call name arguments line =>
        obtain ⟨values, hvalues, h⟩ := Option.bind_eq_some_iff.1 h
        obtain rfl := Option.some.inj h
        exact .call name line hvalues
    · rintro (_ | h | ⟨c, hl, hr⟩ | ⟨c, hl, hr⟩ | ⟨name, line, h⟩)
      · rfl
      · simp [h]
      · simp [hl, hr]
      · simp [hl, hr]
      · simp [h]

/-! ## Enough levels -/

/-- The positions on a way to a position are at most as many as there are nodes, so that the levels
    that are left are enough for the rest of the way. -/
theorem Sound.exists_treeWithin? (h : e.Sound) (fuel : Nat) (position : Nat) (way : List Nat)
    (hposition : position < e.nodes.size) (hnodup : way.Nodup)
    (hway : ∀ i ∈ way, i < e.nodes.size ∧ Relation.TransGen e.Refers i position)
    (hfuel : e.nodes.size ≤ fuel + way.length) : ∃ t, e.treeWithin? fuel position = some t := by
  have hnot : position ∉ way := fun hmem => h.acyclic position (hway position hmem).2
  have hnodup' : (position :: way).Nodup := List.nodup_cons.2 ⟨hnot, hnodup⟩
  induction fuel generalizing position way with
  | zero =>
    have hsub : position :: way ⊆ List.range e.nodes.size := by
      intro i hi
      rcases List.mem_cons.1 hi with rfl | hi
      · exact List.mem_range.2 hposition
      · exact List.mem_range.2 (hway i hi).1
    have hlength := (List.Nodup.subperm hnodup' hsub).length_le
    simp only [List.length_cons, List.length_range] at hlength
    omega
  | succ fuel ih =>
    obtain ⟨n, hn⟩ : ∃ n, e.nodes[position]? = some n := ⟨_, Array.getElem?_eq_getElem hposition⟩
    have hnext : ∀ j ∈ n.references, ∃ t, e.treeWithin? fuel j = some t := by
      intro j hj
      have hrefers : e.Refers position j := ⟨n, hn, hj⟩
      have hway' : ∀ i ∈ position :: way, i < e.nodes.size ∧ Relation.TransGen e.Refers i j := by
        intro i hi
        rcases List.mem_cons.1 hi with rfl | hi
        · exact ⟨hposition, .single hrefers⟩
        · exact ⟨(hway i hi).1, (hway i hi).2.tail hrefers⟩
      have hnot' : j ∉ position :: way := fun hmem => h.acyclic j (hway' j hmem).2
      refine ih j (position :: way) (h.in_range _ _ hrefers) hnodup' hway' ?_ hnot'
        (List.nodup_cons.2 ⟨hnot', hnodup'⟩)
      rw [List.length_cons]
      omega
    obtain ⟨t, ht⟩ := Node.exists_unfolds hnext
    exact ⟨t, treeWithin?_succ.2 ⟨n, hn, ht⟩⟩

/-- A sound list of nodes spells out a tree. -/
theorem Sound.exists_tree? (h : e.Sound) : ∃ t, e.tree? = some t :=
  h.exists_treeWithin? _ _ [] e.root_lt .nil (by simp) (Nat.le_add_right _ _)

end Expression

/-! ## Layouts -/

/-- The nodes of a list refer to nodes before them only. -/
def RefersBack (nodes : Array Node) : Prop :=
  ∀ (i : Nat) (n : Node), nodes[i]? = some n → ∀ j ∈ n.references, j < i

theorem RefersBack.push {nodes : Array Node} {n : Node} (h : RefersBack nodes)
    (hn : ∀ j ∈ n.references, j < nodes.size) : RefersBack (nodes.push n) := by
  intro i m hm
  rw [Array.getElem?_push] at hm
  split at hm
  · next hi =>
    obtain rfl := Option.some.inj hm
    rwa [hi]
  · exact h i m hm

/-- A layout puts every node behind its operands and arguments. -/
theorem refersBack_layOut :
    (∀ (t : Tree) (nodes : Array Node), RefersBack nodes → RefersBack (t.layOut nodes)) ∧
      ∀ (a : TreeArguments) (nodes : Array Node), RefersBack nodes →
        RefersBack (a.layOut nodes).1 ∧
          ∀ r ∈ (a.layOut nodes).2, r.value < (a.layOut nodes).1.size := by
  refine Tree.induct ?_ ?_ ?_ ?_ ?_ ?_
  · intro literal line nodes h
    exact h.push (by simp [Node.references])
  · intro inner ih nodes h
    have := size_layOut.1 inner nodes
    refine (ih nodes h).push fun j hj => ?_
    obtain rfl := List.mem_singleton.1 hj
    omega
  · intro o lhs rhs ihl ihr nodes h
    have := size_layOut.1 lhs nodes
    have := size_layOut.1 rhs (lhs.layOut nodes)
    rw [Tree.layOut_join]
    refine (ihr _ (ihl nodes h)).push fun j hj => ?_
    have hj' : j = (lhs.layOut nodes).size - 1 ∨ j = (rhs.layOut (lhs.layOut nodes)).size - 1 := by
      cases o <;> simpa [Operator.node, Node.references] using hj
    omega
  · intro name arguments line ih nodes h
    obtain ⟨hback, hvalues⟩ := ih nodes h
    refine hback.push fun j hj => ?_
    obtain ⟨r, hr, rfl⟩ := List.mem_map.1 hj
    exact hvalues r hr
  · intro nodes h
    exact ⟨h, by simp [TreeArguments.layOut]⟩
  · intro key value rest ih ihs nodes h
    have := size_layOut.1 value nodes
    have := size_layOut.2 rest (value.layOut nodes)
    obtain ⟨hback, hvalues⟩ := ihs _ (ih nodes h)
    refine ⟨hback, fun r hr => ?_⟩
    rcases List.mem_cons.1 hr with rfl | hr
    · simp only [TreeArguments.layOut]
      omega
    · exact hvalues r hr

/-- Nodes that refer back are sound, shared or not. -/
theorem Expression.sound_of_refersBack {e : Expression} (h : RefersBack e.nodes) : e.Sound := by
  have hlt : ∀ i j, e.Refers i j → j < i := by
    rintro i j ⟨n, hn, hj⟩
    exact h i n hn j hj
  refine ⟨fun i j hrefers => ?_, fun i hcircle => ?_⟩
  · obtain ⟨n, hn, -⟩ := id hrefers
    obtain ⟨hi, -⟩ := Array.getElem?_eq_some_iff.1 hn
    exact (hlt i j hrefers).trans hi
  · have hlt' : ∀ j, Relation.TransGen e.Refers i j → j < i := by
      intro j hj
      induction hj with
      | single hrefers => exact hlt _ _ hrefers
      | tail _ hrefers ih => exact (hlt _ _ hrefers).trans ih
    exact Nat.lt_irrefl i (hlt' i hcircle)

theorem Expression.sound_ofTree (t : Tree) : (ofTree t).Sound :=
  sound_of_refersBack (refersBack_layOut.1 t #[] (by simp [RefersBack]))

/-! ## Evaluating a tree -/

namespace TreeArguments

/-- The first value under a key. -/
def find? (key : String) : TreeArguments → Option Tree
  | .nil => none
  | .cons k value rest => if k = some key then some value else rest.find? key

/-- The first value of all. -/
def head? : TreeArguments → Option Tree
  | .nil => none
  | .cons _ value _ => some value

end TreeArguments

/-- The value of the argument that the function looks at. -/
def BuiltIn.choose? (f : BuiltIn) (arguments : TreeArguments) : Option Tree :=
  match f.parameter with
  | none => none
  | some parameter => (arguments.find? parameter).or arguments.head?

theorem TreeArguments.sizeOf_of_find? {key : String} {arguments : TreeArguments} {t : Tree}
    (h : arguments.find? key = some t) : sizeOf t < sizeOf arguments := by
  match arguments with
  | .nil => cases h
  | .cons k value rest =>
    rw [find?] at h
    split at h
    · obtain rfl := Option.some.inj h
      simp only [cons.sizeOf_spec]
      omega
    · have := sizeOf_of_find? h
      simp only [cons.sizeOf_spec]
      omega

theorem BuiltIn.sizeOf_of_choose? {f : BuiltIn} {arguments : TreeArguments} {t : Tree}
    (h : f.choose? arguments = some t) : sizeOf t < sizeOf arguments := by
  rw [choose?] at h
  split at h
  · cases h
  · rcases Option.or_eq_some_iff.1 h with h | ⟨-, h⟩
    · exact TreeArguments.sizeOf_of_find? h
    · cases arguments with
      | nil => cases h
      | cons key value rest =>
        obtain rfl := Option.some.inj h
        simp only [TreeArguments.cons.sizeOf_spec]
        omega

/-- The value of a tree. -/
def Tree.evaluate : Tree → Performance Value
  | .atom literal _ => return .ofLiteral literal
  | .group inner => inner.evaluate
  | .comparison operator lhs rhs => do
    let left ← lhs.evaluate
    let right ← rhs.evaluate
    operator.apply left right lhs.line
  | .connective operator lhs rhs => do
    let left ← lhs.evaluate
    let right ← rhs.evaluate
    operator.apply left right lhs.line
  | .call name arguments line =>
    match BuiltIn.lookup? name with
    | none => BuiltIn.applyUnknown name line
    | some function =>
      match _ : function.choose? arguments with
      | none => function.apply none line
      | some argument => do
        let value ← argument.evaluate
        function.apply (some value.display) line
termination_by t => sizeOf t
decreasing_by
  all_goals
    simp only [Tree.group.sizeOf_spec, Tree.comparison.sizeOf_spec, Tree.connective.sizeOf_spec,
      Tree.call.sizeOf_spec]
  on_goal 6 => have := BuiltIn.sizeOf_of_choose? ‹_›
  all_goals omega

theorem Tree.evaluate_join (o : Operator) (lhs rhs : Tree) :
    (o.join lhs rhs).evaluate =
      lhs.evaluate >>= fun left => rhs.evaluate >>= fun right => o.apply left right lhs.line := by
  cases o <;> rw [Operator.join, evaluate] <;> rfl

section Calls

variable {name : String} {arguments : TreeArguments} {line : Nat} {f : BuiltIn}

theorem Tree.evaluate_unknown (hname : BuiltIn.lookup? name = none) :
    (call name arguments line).evaluate = BuiltIn.applyUnknown name line := by
  rw [evaluate, hname]

theorem Tree.evaluate_bare (hname : BuiltIn.lookup? name = some f)
    (hchoose : f.choose? arguments = none) :
    (call name arguments line).evaluate = f.apply none line := by
  rw [evaluate, hname]
  dsimp only
  split
  · rfl
  · next h => rw [hchoose] at h; cases h

theorem Tree.evaluate_argument (hname : BuiltIn.lookup? name = some f) {t : Tree}
    (hchoose : f.choose? arguments = some t) :
    (call name arguments line).evaluate =
      t.evaluate >>= fun value => f.apply (some value.display) line := by
  rw [evaluate, hname]
  dsimp only
  split
  · next h => rw [hchoose] at h; cases h
  · next h =>
    rw [hchoose] at h
    obtain rfl := Option.some.inj h
    rfl

/-- Induction on the parts of a tree that are evaluated. -/
theorem Tree.evaluated_induct {motive : Tree → Prop}
    (atom : ∀ literal line, motive (.atom literal line))
    (group : ∀ inner, motive inner → motive (.group inner))
    (join : ∀ o lhs rhs, motive lhs → motive rhs → motive (Operator.join lhs rhs o))
    (unknown : ∀ name arguments line, BuiltIn.lookup? name = none →
      motive (.call name arguments line))
    (bare : ∀ name arguments line f, BuiltIn.lookup? name = some f →
      f.choose? arguments = none → motive (.call name arguments line))
    (argument : ∀ name arguments line f t, BuiltIn.lookup? name = some f →
      f.choose? arguments = some t → motive t → motive (.call name arguments line)) :
    ∀ t, motive t := by
  intro t
  induction t using Tree.evaluate.induct with
  | case1 literal line => exact atom literal line
  | case2 inner ih => exact group inner ih
  | case3 c lhs rhs ihl ihr => exact join (.comparison c) lhs rhs ihl ihr
  | case4 c lhs rhs ihl ihr => exact join (.connective c) lhs rhs ihl ihr
  | case5 name arguments line hname => exact unknown name arguments line hname
  | case6 name arguments line f hname hchoose => exact bare name arguments line f hname hchoose
  | case7 name arguments line f hname t hchoose ih =>
    exact argument name arguments line f t hname hchoose ih

end Calls

/-! ## From nodes to trees -/

theorem TreeArguments.exists_of_collect? {find : Nat → Option Tree} {arguments : List NodeArgument}
    {values : TreeArguments} (h : collect? find arguments = some values) {a : NodeArgument}
    (ha : a ∈ arguments) : ∃ t, find a.value = some t := by
  induction arguments generalizing values with
  | nil => cases ha
  | cons b rest ih =>
    obtain ⟨t, ht, h⟩ := Option.bind_eq_some_iff.1 h
    obtain ⟨others, hothers, -⟩ := Option.bind_eq_some_iff.1 h
    rcases List.mem_cons.1 ha with rfl | ha
    · exact ⟨t, ht⟩
    · exact ih hothers ha

theorem TreeArguments.find?_of_collect? {find : Nat → Option Tree} {arguments : List NodeArgument}
    {values : TreeArguments} (h : collect? find arguments = some values) (key : String) :
    values.find? key =
      (arguments.find? fun a => a.key == some key).bind fun a => find a.value := by
  induction arguments generalizing values with
  | nil =>
    obtain rfl := Option.some.inj h
    rfl
  | cons b rest ih =>
    obtain ⟨t, ht, h⟩ := Option.bind_eq_some_iff.1 h
    obtain ⟨others, hothers, h⟩ := Option.bind_eq_some_iff.1 h
    obtain rfl := Option.some.inj h
    rw [find?, List.find?_cons]
    by_cases hkey : b.key = some key
    · simp [hkey, ht]
    · simp [beq_eq_false_iff_ne.2 hkey, hkey, ih hothers]

theorem TreeArguments.head?_of_collect? {find : Nat → Option Tree} {arguments : List NodeArgument}
    {values : TreeArguments} (h : collect? find arguments = some values) :
    values.head? = arguments.head?.bind fun a => find a.value := by
  cases arguments with
  | nil =>
    obtain rfl := Option.some.inj h
    rfl
  | cons b rest =>
    obtain ⟨t, ht, h⟩ := Option.bind_eq_some_iff.1 h
    obtain ⟨others, -, h⟩ := Option.bind_eq_some_iff.1 h
    obtain rfl := Option.some.inj h
    exact ht.symm

/-- A function looks at an argument exactly if it looks at the tree there. -/
theorem BuiltIn.choose?_of_collect? {find : Nat → Option Tree} (f : BuiltIn)
    {arguments : List NodeArgument} {values : TreeArguments}
    (h : TreeArguments.collect? find arguments = some values) :
    (f.select? arguments = none ∧ f.choose? values = none) ∨
      ∃ a t, f.select? arguments = some a ∧ find a.value = some t ∧ f.choose? values = some t := by
  rw [select?, choose?]
  cases f.parameter with
  | none => exact .inl ⟨rfl, rfl⟩
  | some key =>
    dsimp only
    rw [TreeArguments.find?_of_collect? h, TreeArguments.head?_of_collect? h]
    cases hfind : arguments.find? fun a => a.key == some key with
    | some a =>
      obtain ⟨t, ht⟩ := TreeArguments.exists_of_collect? h (List.mem_of_find?_eq_some hfind)
      exact .inr ⟨a, t, by simp, ht, by simp [ht]⟩
    | none =>
      cases hhead : arguments.head? with
      | none => exact .inl ⟨rfl, rfl⟩
      | some a =>
        obtain ⟨t, ht⟩ := TreeArguments.exists_of_collect? h (List.mem_of_head? hhead)
        exact .inr ⟨a, t, by simp, ht, by simp [ht]⟩

namespace Expression

variable {e : Expression}

/-- The line of a position is the line of the tree there. -/
theorem lineWithin_of_treeWithin? {fuel more position : Nat} {t : Tree}
    (h : e.treeWithin? fuel position = some t) (hle : fuel ≤ more) :
    e.lineWithin more position = some t.line := by
  induction fuel generalizing more position t with
  | zero => cases h
  | succ fuel ih =>
    obtain ⟨more, rfl⟩ : ∃ n, more = n + 1 := ⟨more - 1, by omega⟩
    obtain ⟨n, hn, hunfolds⟩ := treeWithin?_succ.1 h
    rw [lineWithin, hn]
    cases hunfolds with
    | atom literal line => rfl
    | group hinner => exact (ih hinner (Nat.le_of_succ_le_succ hle) :)
    | comparison c hl hr => exact (ih hl (Nat.le_of_succ_le_succ hle) :)
    | connective c hl hr => exact (ih hl (Nat.le_of_succ_le_succ hle) :)
    | call name line h => rfl

theorem lineAt_of_treeWithin? {fuel position : Nat} {t : Tree}
    (h : e.treeWithin? fuel position = some t) (hle : fuel ≤ e.nodes.size) :
    e.lineAt position = t.line := by
  rw [lineAt, lineAt?, lineWithin_of_treeWithin? h hle, Option.getD_some]

/-- Where there is a tree, its value is the value of the position. -/
theorem evaluateWithin_of_treeWithin? {fuel position : Nat} {t : Tree}
    (h : e.treeWithin? fuel position = some t) (hle : fuel ≤ e.nodes.size) :
    e.evaluateWithin fuel position = t.evaluate := by
  induction fuel generalizing position t with
  | zero => cases h
  | succ fuel ih =>
    have hline := lineAt_of_treeWithin? h hle
    have hle' : fuel ≤ e.nodes.size := by omega
    obtain ⟨n, hn, hunfolds⟩ := treeWithin?_succ.1 h
    rw [evaluateWithin, hn]
    cases hunfolds with
    | atom literal line => rw [Tree.evaluate]
    | group hinner => rw [Tree.evaluate, ← ih hinner hle']
    | comparison c hl hr => rw [Tree.evaluate, ← ih hl hle', ← ih hr hle', hline, Tree.line]
    | connective c hl hr => rw [Tree.evaluate, ← ih hl hle', ← ih hr hle', hline, Tree.line]
    | call name line hvalues =>
      dsimp only
      cases hname : BuiltIn.lookup? name with
      | none => rw [Tree.evaluate_unknown hname]
      | some f =>
        rcases f.choose?_of_collect? hvalues with ⟨hselect, hchoose⟩ | ⟨a, t, hselect, ht, hchoose⟩
        · rw [Tree.evaluate_bare hname hchoose]
          dsimp only
          rw [hselect]
        · rw [Tree.evaluate_argument hname hchoose, ← ih ht hle']
          dsimp only
          rw [hselect]

/-- **An expression is evaluated as the tree that it spells out.** -/
theorem evaluate_of_tree? {t : Tree} (h : e.tree? = some t) : e.evaluate = t.evaluate :=
  evaluateWithin_of_treeWithin? h (Nat.le_refl _)

theorem evaluate_ofTree (t : Tree) : (ofTree t).evaluate = t.evaluate :=
  evaluate_of_tree? (tree?_ofTree t)

end Expression

end StageScript
