import StageScript.Proofs.Unfolding

set_option autoImplicit false

/-! # Arguments that nothing looks at

A call of an unknown function looks at no argument, and a known function looks at one at most. Two
lists of nodes are consulted alike if they agree on everything but arguments that no call looks at
(`Expression.ConsultsAlike`). Main statement: `Expression.evaluate_of_consultsAlike`, such arguments
change nothing at any depth. -/

namespace StageScript

theorem Tree.line_join (o : Operator) (lhs rhs : Tree) : (o.join lhs rhs).line = lhs.line := by
  cases o <;> rfl

/-! ## One level -/

section Unfolds

variable {find : Nat → Option Tree}

theorem Node.Unfolds.of_node {o : Operator} {lhs rhs : Nat} {t : Tree}
    (h : (o.node lhs rhs).Unfolds find t) :
    ∃ left right, find lhs = some left ∧ find rhs = some right ∧ t = o.join left right := by
  cases o with
  | comparison c =>
    cases h with
    | comparison c hl hr => exact ⟨_, _, hl, hr, rfl⟩
  | connective c =>
    cases h with
    | connective c hl hr => exact ⟨_, _, hl, hr, rfl⟩

theorem Node.Unfolds.of_join {o : Operator} {n : Node} {left right : Tree}
    (h : n.Unfolds find (o.join left right)) :
    ∃ lhs rhs, n = o.node lhs rhs ∧ find lhs = some left ∧ find rhs = some right := by
  cases o with
  | comparison c =>
    cases h with
    | comparison c hl hr => exact ⟨_, _, rfl, hl, hr⟩
  | connective c =>
    cases h with
    | connective c hl hr => exact ⟨_, _, rfl, hl, hr⟩

theorem Node.Unfolds.of_group {n : Node} {inner : Tree} (h : n.Unfolds find (.group inner)) :
    ∃ p, n = .group p ∧ find p = some inner := by
  cases h with
  | group hinner => exact ⟨_, rfl, hinner⟩

theorem Node.Unfolds.of_call {n : Node} {name : String} {values : TreeArguments} {line : Nat}
    (h : n.Unfolds find (.call name values line)) :
    ∃ arguments, n = .call name arguments line ∧
      TreeArguments.collect? find arguments = some values := by
  cases h with
  | call _ _ hvalues => exact ⟨_, rfl, hvalues⟩

variable {f : BuiltIn} {arguments : List NodeArgument} {values : TreeArguments}

theorem BuiltIn.choose?_eq_none_iff (h : TreeArguments.collect? find arguments = some values) :
    f.choose? values = none ↔ f.select? arguments = none := by
  rcases f.choose?_of_collect? h with ⟨hselect, hchoose⟩ | ⟨a, t, hselect, -, hchoose⟩ <;>
    simp [hselect, hchoose]

theorem BuiltIn.choose?_eq_some_iff (h : TreeArguments.collect? find arguments = some values)
    {t : Tree} :
    f.choose? values = some t ↔ ∃ a, f.select? arguments = some a ∧ find a.value = some t := by
  rcases f.choose?_of_collect? h with ⟨hselect, hchoose⟩ | ⟨a, u, hselect, hu, hchoose⟩ <;>
    simp [*]

theorem BuiltIn.exists_choose? (h : TreeArguments.collect? find arguments = some values)
    {a : NodeArgument} (ha : f.select? arguments = some a) :
    ∃ t, find a.value = some t ∧ f.choose? values = some t := by
  rcases f.choose?_of_collect? h with ⟨hselect, -⟩ | ⟨b, t, hselect, ht, hchoose⟩
  · cases hselect.symm.trans ha
  · obtain rfl := Option.some.inj (hselect.symm.trans ha)
    exact ⟨t, ht, hchoose⟩

end Unfolds

/-! ## Lists of nodes -/

namespace Expression

/-- A position of one list of nodes and a position of another one stand for the same expression but
    for arguments that no call looks at. -/
inductive ConsultsAlike (e f : Expression) : Nat → Nat → Prop where
  | atom {i j : Nat} {literal : Literal} {line : Nat}
    (he : e.nodes[i]? = some (.atom literal line)) (hf : f.nodes[j]? = some (.atom literal line)) :
    ConsultsAlike e f i j
  | group {i j inner inner' : Nat} (he : e.nodes[i]? = some (.group inner))
    (hf : f.nodes[j]? = some (.group inner')) (h : ConsultsAlike e f inner inner') :
    ConsultsAlike e f i j
  | join {i j lhs rhs lhs' rhs' : Nat} {o : Operator} (he : e.nodes[i]? = some (o.node lhs rhs))
    (hf : f.nodes[j]? = some (o.node lhs' rhs')) (hl : ConsultsAlike e f lhs lhs')
    (hr : ConsultsAlike e f rhs rhs') : ConsultsAlike e f i j
  /-- A call of an unknown function, with any arguments on either side. -/
  | unknown {i j : Nat} {name : String} {arguments others : List NodeArgument} {line : Nat}
    (he : e.nodes[i]? = some (.call name arguments line))
    (hf : f.nodes[j]? = some (.call name others line)) (hname : BuiltIn.lookup? name = none) :
    ConsultsAlike e f i j
  /-- A call of a function that selects none of its arguments on either side. -/
  | bare {i j : Nat} {name : String} {arguments others : List NodeArgument} {line : Nat}
    {known : BuiltIn} (he : e.nodes[i]? = some (.call name arguments line))
    (hf : f.nodes[j]? = some (.call name others line)) (hname : BuiltIn.lookup? name = some known)
    (hnone : known.select? arguments = none) (hnone' : known.select? others = none) :
    ConsultsAlike e f i j
  /-- A call of a function that selects arguments that are alike. -/
  | argument {i j : Nat} {name : String} {arguments others : List NodeArgument} {line : Nat}
    {known : BuiltIn} {a b : NodeArgument} (he : e.nodes[i]? = some (.call name arguments line))
    (hf : f.nodes[j]? = some (.call name others line)) (hname : BuiltIn.lookup? name = some known)
    (hsome : known.select? arguments = some a) (hsome' : known.select? others = some b)
    (h : ConsultsAlike e f a.value b.value) : ConsultsAlike e f i j

variable {e f : Expression} {n m i j : Nat} {t u : Tree}

theorem unfolds_of_node {node : Node} (hnode : e.nodes[i]? = some node)
    (ht : e.treeWithin? n i = some t) : ∃ k, node.Unfolds (e.treeWithin? k) t := by
  cases n with
  | zero => cases ht
  | succ k =>
    obtain ⟨node', hnode', hunfolds⟩ := treeWithin?_succ.1 ht
    obtain rfl := Option.some.inj (hnode.symm.trans hnode')
    exact ⟨k, hunfolds⟩

/-- Where two positions are consulted alike, the trees have the same line and the same value. -/
theorem ConsultsAlike.trees (h : e.ConsultsAlike f i j) (ht : e.treeWithin? n i = some t)
    (hu : f.treeWithin? m j = some u) : t.line = u.line ∧ t.evaluate = u.evaluate := by
  induction h generalizing n m t u with
  | atom he hf =>
    obtain ⟨k, hnode⟩ := unfolds_of_node he ht
    obtain ⟨l, hnode'⟩ := unfolds_of_node hf hu
    cases hnode
    cases hnode'
    exact ⟨rfl, rfl⟩
  | group he hf _ ih =>
    obtain ⟨k, hnode⟩ := unfolds_of_node he ht
    obtain ⟨l, hnode'⟩ := unfolds_of_node hf hu
    cases hnode with | group hinner =>
    cases hnode' with | group hinner' =>
    rw [Tree.evaluate, Tree.evaluate]
    exact ih hinner hinner'
  | join he hf _ _ ihl ihr =>
    obtain ⟨k, hnode⟩ := unfolds_of_node he ht
    obtain ⟨l, hnode'⟩ := unfolds_of_node hf hu
    obtain ⟨left, right, hl, hr, rfl⟩ := hnode.of_node
    obtain ⟨left', right', hl', hr', rfl⟩ := hnode'.of_node
    obtain ⟨hline, hleft⟩ := ihl hl hl'
    obtain ⟨-, hright⟩ := ihr hr hr'
    rw [Tree.line_join, Tree.line_join, Tree.evaluate_join, Tree.evaluate_join, hleft, hright,
      hline]
    exact ⟨rfl, rfl⟩
  | unknown he hf hname =>
    obtain ⟨k, hnode⟩ := unfolds_of_node he ht
    obtain ⟨l, hnode'⟩ := unfolds_of_node hf hu
    cases hnode with | call _ _ hvalues =>
    cases hnode' with | call _ _ hvalues' =>
    rw [Tree.evaluate_unknown hname, Tree.evaluate_unknown hname]
    exact ⟨rfl, rfl⟩
  | bare he hf hname hnone hnone' =>
    obtain ⟨k, hnode⟩ := unfolds_of_node he ht
    obtain ⟨l, hnode'⟩ := unfolds_of_node hf hu
    cases hnode with | call _ _ hvalues =>
    cases hnode' with | call _ _ hvalues' =>
    rw [Tree.evaluate_bare hname ((BuiltIn.choose?_eq_none_iff hvalues).2 hnone),
      Tree.evaluate_bare hname ((BuiltIn.choose?_eq_none_iff hvalues').2 hnone')]
    exact ⟨rfl, rfl⟩
  | argument he hf hname hsome hsome' _ ih =>
    obtain ⟨k, hnode⟩ := unfolds_of_node he ht
    obtain ⟨l, hnode'⟩ := unfolds_of_node hf hu
    cases hnode with | call _ _ hvalues =>
    cases hnode' with | call _ _ hvalues' =>
    obtain ⟨v, hv, hchoose⟩ := BuiltIn.exists_choose? hvalues hsome
    obtain ⟨w, hw, hchoose'⟩ := BuiltIn.exists_choose? hvalues' hsome'
    rw [Tree.evaluate_argument hname hchoose, Tree.evaluate_argument hname hchoose', (ih hv hw).2]
    exact ⟨rfl, rfl⟩

/-- **An argument that no call looks at is irrelevant**, at any depth and whatever it holds: the
    expressions are one performance, and so have one value and one list of events on every stage. -/
theorem evaluate_of_consultsAlike (he : e.Sound) (hf : f.Sound)
    (h : e.ConsultsAlike f e.root f.root) :
    e.evaluate = f.evaluate ∧
      ∀ r : Recording, e.evaluate.onRecording r = f.evaluate.onRecording r := by
  obtain ⟨t, ht⟩ := he.exists_tree?
  obtain ⟨u, hu⟩ := hf.exists_tree?
  have heval : e.evaluate = f.evaluate := by
    rw [evaluate_of_tree? ht, evaluate_of_tree? hu, (h.trees ht hu).2]
  exact ⟨heval, fun r => by rw [heval]⟩

/-- An argument beside the selected one, arguments of an unknown function within the selected one,
    and an argument of a function that takes none. -/
theorem evaluate_nested_irrelevant :
    let e := ofTree (.connective .conjunction
      (.call "ファイル" (.cons (some "他") (.call "謎" (.cons none (.atom (.string "「甲」") 1) .nil) 1)
        (.cons (some "パス") (.call "謎" (.cons none (.call "現在時刻" .nil 1) .nil) 1) .nil)) 1)
      (.call "現在時刻" (.cons none (.call "謎" .nil 2) .nil) 2))
    let f := ofTree (.connective .conjunction
      (.call "ファイル" (.cons (some "パス") (.call "謎" .nil 1) .nil) 1)
      (.call "現在時刻" .nil 2))
    e.ConsultsAlike f e.root f.root ∧
      e.evaluate = f.evaluate ∧
      ∀ r : Recording, e.evaluate.onRecording r = f.evaluate.onRecording r := by
  intro e f
  have hunknown : e.ConsultsAlike f 3 0 := .unknown rfl rfl (by decide)
  have hleft : e.ConsultsAlike f 4 1 := .argument rfl rfl rfl rfl rfl hunknown
  have hright : e.ConsultsAlike f 6 2 := .bare rfl rfl rfl rfl rfl
  have hroot : e.ConsultsAlike f e.root f.root :=
    .join (o := .connective .conjunction) rfl rfl hleft hright
  exact ⟨hroot, evaluate_of_consultsAlike (sound_ofTree _) (sound_ofTree _) hroot⟩

end Expression

end StageScript
