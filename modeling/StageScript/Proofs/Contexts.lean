import StageScript.Proofs.Unfolding

set_option autoImplicit false

/-! # Trees with a hole

A node of a tree is told by what stands around it: `Tree.Context` is a tree with one subtree left
out, and `Tree.Context.fill` puts one in. What is around the hole is written before and behind the
subtree (`yield_fill`), and a subtree can be replaced by one of the same value and line without a
change in the value of the whole (`evaluate_congr`). A group is such a replacement, and fits into
every hole that its inner tree fits into (`levelled_fill_group`, `wordsApart_fill_group`). -/

namespace StageScript

/-! ## Arguments one after the other -/

namespace TreeArguments

/-- The second arguments behind the first ones. -/
def append : TreeArguments → TreeArguments → TreeArguments
  | .nil, others => others
  | .cons key value rest, others => .cons key value (rest.append others)

variable (earlier others : TreeArguments)

theorem yield_append : (earlier.append others).yield = earlier.yield ++ others.yield := by
  induction earlier, others using TreeArguments.append.induct with
  | case1 others => rfl
  | case2 key value rest others ih => simp only [append, yield, ih, List.append_assoc]

theorem levelled_append :
    (earlier.append others).Levelled ↔ earlier.Levelled ∧ others.Levelled := by
  induction earlier, others using TreeArguments.append.induct with
  | case1 others => simp [append, Levelled]
  | case2 key value rest others ih => simp only [append, Levelled, ih, and_assoc]

theorem find?_append (key : String) :
    (earlier.append others).find? key = (earlier.find? key).or (others.find? key) := by
  induction earlier, others using TreeArguments.append.induct with
  | case1 others => rfl
  | case2 k value rest others ih =>
    rw [append, find?, find?]
    by_cases hk : k = some key
    · simp [hk]
    · simp [hk, ih]

theorem head?_append : (earlier.append others).head? = earlier.head?.or others.head? := by
  cases earlier <;> rfl

end TreeArguments

/-! ## Contexts -/

/-- A tree with a hole. -/
inductive Tree.Context where
  | hole
  | group (inner : Context)
  | left (o : Operator) (lhs : Context) (rhs : Tree)
  | right (o : Operator) (lhs : Tree) (rhs : Context)
  | argument (name : String) (earlier : TreeArguments) (key : Option String) (value : Context)
    (later : TreeArguments) (line : Nat)

namespace Tree.Context

/-- The tree in the hole. -/
def fill (s : Tree) : Context → Tree
  | hole => s
  | group inner => .group (inner.fill s)
  | left o lhs rhs => o.join (lhs.fill s) rhs
  | right o lhs rhs => o.join lhs (rhs.fill s)
  | argument name earlier key value later line =>
    .call name (earlier.append (.cons key (value.fill s) later)) line

/-- What is written before the hole. -/
def front : Context → List Symbol
  | hole => []
  | group inner => .sign .leftParen :: inner.front
  | left _ lhs _ => lhs.front
  | right o lhs rhs => lhs.yield ++ .sign o.token :: rhs.front
  | argument name earlier key value _ line =>
    .name name line :: .sign .leftParen :: (earlier.yield ++ (Symbol.ofKey key ++ value.front))

/-- What is written behind the hole. -/
def back : Context → List Symbol
  | hole => []
  | group inner => inner.back ++ [.sign .rightParen]
  | left o lhs rhs => lhs.back ++ .sign o.token :: rhs.yield
  | right _ _ rhs => rhs.back
  | argument _ _ _ value later _ => value.back ++ (later.yield ++ [.sign .rightParen])

variable (c : Context) {s t : Tree}

theorem yield_fill (s : Tree) : (c.fill s).yield = c.front ++ (s.yield ++ c.back) := by
  induction c with
  | hole => simp [fill, front, back]
  | group inner ih => simp [fill, front, back, Tree.yield, ih]
  | left o lhs rhs ih => simp [fill, front, back, Tree.yield_join, ih]
  | right o lhs rhs ih => simp [fill, front, back, Tree.yield_join, ih]
  | argument name earlier key value later line ih =>
    simp [fill, front, back, Tree.yield, TreeArguments.yield_append, TreeArguments.yield, ih]

theorem yield_fill_group (s : Tree) : (c.fill (.group s)).yield =
    c.front ++ .sign .leftParen :: (s.yield ++ .sign .rightParen :: c.back) := by
  rw [yield_fill]
  simp [Tree.yield]

/-! ## Values -/

theorem line_congr (hline : s.line = t.line) : (c.fill s).line = (c.fill t).line := by
  have hjoin : ∀ (o : Operator) (lhs rhs : Tree), (o.join lhs rhs).line = lhs.line := by
    intro o lhs rhs
    cases o <;> rfl
  induction c with
  | hole => exact hline
  | group inner ih => exact ih
  | left o lhs rhs ih => rw [fill, fill, hjoin, hjoin, ih]
  | right o lhs rhs ih => rw [fill, fill, hjoin, hjoin]
  | argument name earlier key value later line ih => rfl

/-- A function looks at the same argument, whatever is in the hole. -/
theorem choose?_argument (f : BuiltIn) (earlier : TreeArguments) (key : Option String)
    (later : TreeArguments) (s t : Tree) :
    f.choose? (earlier.append (.cons key s later)) = some s ∧
        f.choose? (earlier.append (.cons key t later)) = some t ∨
      f.choose? (earlier.append (.cons key s later)) =
        f.choose? (earlier.append (.cons key t later)) := by
  simp only [BuiltIn.choose?, TreeArguments.find?_append, TreeArguments.head?_append]
  cases f.parameter with
  | none => exact .inr rfl
  | some parameter =>
    dsimp only
    cases hearlier : earlier.find? parameter with
    | some u => exact .inr rfl
    | none =>
      by_cases hkey : key = some parameter
      · exact .inl (by simp [TreeArguments.find?, hkey])
      · cases hlater : later.find? parameter with
        | some u => exact .inr (by simp [TreeArguments.find?, hkey, hlater])
        | none =>
          cases earlier with
          | nil => exact .inl (by simp [TreeArguments.find?, TreeArguments.head?, hkey, hlater])
          | cons k u rest =>
            exact .inr (by simp [TreeArguments.find?, TreeArguments.head?, hkey, hlater])

/-- Trees of the same value and line can take the place of each other. -/
theorem evaluate_congr (hline : s.line = t.line) (hvalue : s.evaluate = t.evaluate) :
    (c.fill s).evaluate = (c.fill t).evaluate := by
  induction c with
  | hole => exact hvalue
  | group inner ih => rw [fill, fill, Tree.evaluate, Tree.evaluate, ih]
  | left o lhs rhs ih =>
    rw [fill, fill, Tree.evaluate_join, Tree.evaluate_join, ih, lhs.line_congr hline]
  | right o lhs rhs ih => rw [fill, fill, Tree.evaluate_join, Tree.evaluate_join, ih]
  | argument name earlier key value later line ih =>
    rw [fill, fill]
    cases hname : BuiltIn.lookup? name with
    | none => rw [Tree.evaluate_unknown hname, Tree.evaluate_unknown hname]
    | some f =>
      rcases choose?_argument f earlier key later (value.fill s) (value.fill t) with ⟨hs, ht⟩ | heq
      · rw [Tree.evaluate_argument hname hs, Tree.evaluate_argument hname ht, ih]
      · cases hchoose : f.choose? (earlier.append (.cons key (value.fill t) later)) with
        | none =>
          rw [Tree.evaluate_bare hname (heq.trans hchoose), Tree.evaluate_bare hname hchoose]
        | some u =>
          rw [Tree.evaluate_argument hname (heq.trans hchoose),
            Tree.evaluate_argument hname hchoose]

/-! ## Groups -/

theorem level_fill_group (s : Tree) : (c.fill s).level ≤ (c.fill (.group s)).level := by
  cases c with
  | hole =>
    show s.level ≤ 3
    unfold Tree.level
    split
    · exact Nat.le_of_lt (Operator.level_lt_three _)
    · exact le_rfl
  | group | argument => exact le_rfl
  | left o | right o => rw [fill, fill, Tree.level_join, Tree.level_join]

/-- A group is held by every operator that holds its inner tree. -/
theorem levelled_fill_group (h : (c.fill s).Levelled) : (c.fill (.group s)).Levelled := by
  induction c with
  | hole => exact h
  | group inner ih => exact ih h
  | left o lhs rhs ih =>
    rw [fill, Tree.levelled_join] at h ⊢
    obtain ⟨hlhs, hrhs, hleft, hright⟩ := h
    exact ⟨ih hlhs, hrhs, hleft.trans (lhs.level_fill_group s), hright⟩
  | right o lhs rhs ih =>
    rw [fill, Tree.levelled_join] at h ⊢
    obtain ⟨hlhs, hrhs, hleft, hright⟩ := h
    exact ⟨hlhs, ih hrhs, hleft, hright.trans_le (rhs.level_fill_group s)⟩
  | argument name earlier key value later line ih =>
    rw [fill] at h ⊢
    have h' : (earlier.append (.cons key (value.fill s) later)).Levelled := h
    rw [TreeArguments.levelled_append] at h'
    obtain ⟨hearlier, hvalue, hlater⟩ := h'
    exact (TreeArguments.levelled_append _ _).2 ⟨hearlier, ih hvalue, hlater⟩

/-- The hole does not stand behind a bare word. -/
def BehindNoWord : Prop := ∀ x ∈ c.front.getLast?, ¬x.IsWord

/-- A group stands apart from the bare words around it where its inner tree does and no bare word
    is right before it. -/
theorem wordsApart_fill_group (h : WordsApart (c.fill s).yield) :
    WordsApart (c.fill (.group s)).yield ↔ c.BehindNoWord := by
  rw [yield_fill] at h
  have hinner : WordsApart (s.yield ++ c.back) := List.IsChain.right_of_append h
  have hback : WordsApart c.back := List.IsChain.right_of_append hinner
  have hclosed : WordsApart (s.yield ++ .sign .rightParen :: c.back) :=
    WordsApart.append_iff.2 ⟨hinner.of_append.append_sign (by decide),
      WordsApart.sign_cons_iff.2 hback⟩
  have hfront : List.IsChain Symbol.MayPrecede c.front := h.of_append
  rw [yield_fill_group, WordsApart.append_iff, WordsApart.sign_cons_iff, and_iff_left hclosed]
  unfold WordsApart
  rw [List.isChain_append, and_iff_right hfront]
  simp [Symbol.MayPrecede, Symbol.kind, BehindNoWord]

end Tree.Context

end StageScript
