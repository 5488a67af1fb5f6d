import StageScript.Proofs.Reading

set_option autoImplicit false

/-! # The parsers without their bound

The parsers recurse on a bound, and `Parser.enough` is a bound with which they start. Here every
parser is started with that bound on its own stream, and shown to call the others in the same way:
`Parsers.step` is one round of calls, a bounded parser is that many rounds, and rounds beyond the
size of the stream change nothing (`Parsers.agree_within`), so that the parsers without a bound are
a fixed point of one round (`Parsers.whole_eq_step`). The equations below it are all that is needed
to know of the bound. -/

namespace StageScript

namespace Parser

/-! ## Every parser with a bound of its own -/

/-- An expression of operators that hold their left operand at least as tightly as `power`. -/
def treeAt (power : Nat) : Parser Tree := fun s => expressionWithin (enough s) power s

/-- An operand. -/
def operand : Parser Tree := fun s => operandWithin (enough s) s

/-- The operand that starts with a word. -/
def wordOperand (word : Token) : Parser Tree := fun s => wordWithin (enough s) word s

/-- The arguments of a call with the closing parenthesis. -/
def callArguments : Parser TreeArguments := fun s => argumentsWithin (enough s) s

/-- The operators that hold `lhs` at least as tightly as `power`, with their right operands. -/
def operators (power : Nat) (lhs : Tree) : Parser Tree := fun s =>
  operatorsWithin (enough s) power lhs s

/-- The arguments of a command, put in behind the given ones. -/
def commandArguments (arguments : Arguments) : Parser Arguments := fun s =>
  commandArgumentsWithin (enough s) arguments s

/-- The statements up to the end of the file. -/
def statements : Parser (List Statement) := fun s => statementsWithin (enough s) s

theorem expression_eq : expression = (do return .ofTree (← treeAt 0)) := by
  funext s
  simp only [expression, bind_apply, treeAt]

theorem program_eq : program = (do return ⟨← statements⟩) := by
  funext s
  simp only [program, bind_apply, statements]

/-! ## One round of calls -/

/-- The parsers that call each other. -/
structure Parsers where
  tree : Nat → Parser Tree
  operand : Parser Tree
  word : Token → Parser Tree
  arguments : Parser TreeArguments
  operators : Nat → Tree → Parser Tree
  commandArguments : Arguments → Parser Arguments
  statement : Parser Statement
  statements : Parser (List Statement)

namespace Parsers

/-- Every parser with the given ones in place of those that it calls. -/
def step (c : Parsers) : Parsers where
  tree power := do
    let lhs ← c.operand
    c.operators power lhs
  operand := do
    let t ← next
    match t.kind with
    | .number => return .atom (.number t.text) t.line
    | .string => return .atom (.string t.text) t.line
    | .identifier => c.word t
    | .leftParen =>
      let inner ← c.tree 0
      let _ ← expect .rightParen
      return .group inner
    | .endOfFile => fail .unexpectedEnd t
    | actual => fail (.notAnExpression actual) t
  word w := do
    if ← eat .leftParen then
      let arguments ← c.arguments
      return .call w.text arguments w.line
    else return .atom (.word w.text) w.line
  arguments := do
    let t ← peek
    match t.kind with
    | .rightParen =>
      let _ ← next
      return .nil
    | .endOfFile => fail .unexpectedEnd t
    | .identifier =>
      let word ← next
      if ← eat .colon then
        let value ← c.tree 0
        let rest ← c.arguments
        return .cons (some word.text) value rest
      else
        let lhs ← c.word word
        let value ← c.operators 0 lhs
        let rest ← c.arguments
        return .cons none value rest
    | _ =>
      let value ← c.tree 0
      let rest ← c.arguments
      return .cons none value rest
  operators power lhs := do
    let t ← peek
    match Operator.ofToken? t.kind with
    | none => return lhs
    | some operator =>
      if operator.powers.1 < power then return lhs
      else
        let _ ← next
        let rhs ← c.tree operator.powers.2
        c.operators power (operator.join lhs rhs)
  commandArguments arguments := do
    let t ← peek
    match t.kind with
    | .identifier =>
      let word ← next
      if ← eat .colon then
        let value ← argumentValue
        c.commandArguments (arguments.insert word.text value)
      else c.commandArguments (arguments.insert Arguments.defaultKey (.word word.text))
    | .number | .string =>
      let value ← argumentValue
      c.commandArguments (arguments.insert Arguments.defaultKey value)
    | _ => return arguments
  statement := do
    let first ← next
    match first.kind with
    | .string =>
      terminator
      return .dialogue first.text first.line
    | .identifier =>
      let arguments ← c.commandArguments .empty
      terminator
      return .command first.text arguments first.line
    | .guardMark =>
      let condition ← c.tree 0
      skipNewlines
      let body ← c.statement
      skipNewlines
      let label ← jump
      return .conditional (.ofTree condition) body label first.line
    | .endOfFile => fail .unexpectedEnd first
    | actual => fail (.notAStatement actual) first
  statements := do
    let first ← peek
    match first.kind with
    | .newline =>
      let _ ← next
      c.statements
    | .endOfFile => return []
    | _ =>
      let statement ← c.statement
      let rest ← c.statements
      return statement :: rest

/-- The parsers with a bound. -/
def within (bound : Nat) : Parsers where
  tree := expressionWithin bound
  operand := operandWithin bound
  word := wordWithin bound
  arguments := argumentsWithin bound
  operators := operatorsWithin bound
  commandArguments := commandArgumentsWithin bound
  statement := statementWithin bound
  statements := statementsWithin bound

/-- The parsers without a bound. -/
def whole : Parsers where
  tree := treeAt
  operand := Parser.operand
  word := wordOperand
  arguments := callArguments
  operators := Parser.operators
  commandArguments := Parser.commandArguments
  statement := Parser.statement
  statements := Parser.statements

theorem within_succ (bound : Nat) : within (bound + 1) = (within bound).step := rfl

/-! ## Every parser takes items -/

/-- How many items the parsers take at least when they succeed. -/
structure Advance (c : Parsers) : Prop where
  tree : ∀ power, Consumes 1 (c.tree power)
  operand : Consumes 1 c.operand
  word : ∀ w, Consumes 0 (c.word w)
  arguments : Consumes 1 c.arguments
  operators : ∀ power lhs, Consumes 0 (c.operators power lhs)
  commandArguments : ∀ a, Consumes 0 (c.commandArguments a)
  statement : Consumes 1 c.statement
  statements : Consumes 0 c.statements

theorem argumentValue_consumes : Consumes 1 argumentValue := by
  refine Consumes.next_bind (k := 0) (fun t _ => ?_) (fun t ht => ?_)
  · split
    · exact .pure _
    · exact .pure _
    · exact .pure _
    · exact .fail _ _
    · exact .fail _ _
  · rw [ht]
    exact .fail _ _

theorem jump_consumes : Consumes 0 jump := by
  refine (Consumes.eat _).bind (k := 0) fun taken => ?_
  split
  · exact (Consumes.expect _).bind fun _ => Consumes.terminator.bind fun _ => .pure _
  · exact .pure _

namespace Advance

variable {c : Parsers}

theorem step_operand (h : c.Advance) : Consumes 1 c.step.operand := by
  refine Consumes.next_bind (k := 0) (fun t _ => ?_) (fun t ht => ?_)
  · split
    · exact .pure _
    · exact .pure _
    · exact h.word t
    · exact ((h.tree 0).bind fun _ => (Consumes.expect _).bind fun _ => .pure _).weaken
        (Nat.zero_le _)
    · exact .fail _ _
    · exact .fail _ _
  · rw [ht]
    exact .fail _ _

theorem step_word (h : c.Advance) (w : Token) : Consumes 0 (c.step.word w) := by
  refine (Consumes.eat _).bind (k := 0) fun taken => ?_
  split
  · exact (h.arguments.bind fun _ => .pure _).weaken (Nat.zero_le _)
  · exact .pure _

theorem step_arguments (h : c.Advance) : Consumes 1 c.step.arguments := by
  refine Consumes.peek_bind fun s t hs b rest hb => ?_
  have hvalue : Consumes 1 (do
      let value ← c.tree 0
      let rest ← c.arguments
      return TreeArguments.cons none value rest) :=
    ((h.tree 0).bind fun _ => h.arguments.bind fun _ => .pure _).weaken (by omega)
  cases hk : t.kind
  case rightParen =>
    rw [hk] at hb
    obtain ⟨u, mid, hu, hmid⟩ := bind_eq_ok.1 hb
    obtain ⟨-, rfl⟩ := next_eq_ok.1 hu
    obtain ⟨-, rfl⟩ := pure_eq_ok.1 hmid
    exact Nat.le_of_eq (Stream.length_tail_of_head hs (by simp [hk]))
  case endOfFile =>
    rw [hk] at hb
    exact absurd hb fail_ne_ok
  case identifier =>
    rw [hk] at hb
    refine Consumes.bind (k := 1) Consumes.next (fun word => ?_) s b rest hb
    refine (Consumes.eat _).bind (k := 1) fun taken => ?_
    split
    · exact ((h.tree 0).bind fun _ => h.arguments.bind fun _ => .pure _).weaken (by omega)
    · exact ((h.word word).bind fun _ => (h.operators 0 _).bind fun _ =>
        h.arguments.bind fun _ => .pure _).weaken (by omega)
  all_goals
    rw [hk] at hb
    exact hvalue s b rest hb

theorem step_operators (h : c.Advance) (power : Nat) (lhs : Tree) :
    Consumes 0 (c.step.operators power lhs) := by
  refine Consumes.peek_bind fun s t _ => ?_
  suffices hbody : Consumes 0 _ from fun b rest => hbody s b rest
  split
  · exact .pure _
  · split
    · exact .pure _
    · exact (Consumes.next.bind fun _ => (h.tree _).bind fun _ => h.operators power _).weaken
        (Nat.zero_le _)

theorem step_commandArguments (h : c.Advance) (a : Arguments) :
    Consumes 0 (c.step.commandArguments a) := by
  have hvalue : ∀ key, Consumes 0 (do
      let value ← argumentValue
      c.commandArguments (a.insert key value)) := fun key =>
    (argumentValue_consumes.bind fun _ => h.commandArguments _).weaken (Nat.zero_le _)
  refine Consumes.peek_bind fun s t _ => ?_
  suffices hbody : Consumes 0 _ from fun b rest => hbody s b rest
  split
  · refine Consumes.next.bind (k := 0) fun _ => (Consumes.eat _).bind (k := 0) fun taken => ?_
    split
    · exact hvalue _
    · exact h.commandArguments _
  · exact hvalue _
  · exact hvalue _
  · exact .pure _

theorem step_statement (h : c.Advance) : Consumes 1 c.step.statement := by
  refine Consumes.next_bind (k := 0) (fun t _ => ?_) (fun t ht => ?_)
  · split
    · exact Consumes.terminator.bind fun _ => .pure _
    · exact (h.commandArguments _).bind fun _ => Consumes.terminator.bind fun _ => .pure _
    · exact ((h.tree 0).bind fun _ => Consumes.skipNewlines.bind fun _ =>
        h.statement.bind fun _ => Consumes.skipNewlines.bind fun _ =>
        jump_consumes.bind fun _ => .pure _).weaken (Nat.zero_le _)
    · exact .fail _ _
    · exact .fail _ _
  · rw [ht]
    exact .fail _ _

theorem step_statements (h : c.Advance) : Consumes 0 c.step.statements := by
  refine Consumes.peek_bind fun s t _ => ?_
  suffices hbody : Consumes 0 _ from fun b rest => hbody s b rest
  split
  · exact Consumes.next.bind fun _ => h.statements
  · exact .pure _
  · exact (h.statement.bind fun _ => h.statements.bind fun _ => .pure _).weaken (Nat.zero_le _)

/-- One round takes as many items. -/
theorem step (h : c.Advance) : c.step.Advance where
  tree power := h.operand.bind fun lhs => h.operators power lhs
  operand := h.step_operand
  word := h.step_word
  arguments := h.step_arguments
  operators := h.step_operators
  commandArguments := h.step_commandArguments
  statement := h.step_statement
  statements := h.step_statements

end Advance

theorem advance_within (bound : Nat) : (within bound).Advance := by
  induction bound with
  | zero =>
    exact ⟨fun _ => .exhausted, .exhausted, fun _ => .exhausted, .exhausted,
      fun _ _ => .exhausted, fun _ => .exhausted, .exhausted, .exhausted⟩
  | succ bound ih => exact within_succ bound ▸ ih.step

theorem advance_whole : whole.Advance where
  tree power s := (advance_within (enough s)).tree power s
  operand s := (advance_within (enough s)).operand s
  word w s := (advance_within (enough s)).word w s
  arguments s := (advance_within (enough s)).arguments s
  operators power lhs s := (advance_within (enough s)).operators power lhs s
  commandArguments a s := (advance_within (enough s)).commandArguments a s
  statement s := (advance_within (enough s)).statement s
  statements s := (advance_within (enough s)).statements s

/-! ## Rounds beyond the size of the stream -/

/-- The two agree on every stream that is small enough for so many rounds. -/
structure Agree (rounds : Nat) (c d : Parsers) : Prop where
  tree : ∀ power s, 2 * s.items.length + 2 ≤ rounds → c.tree power s = d.tree power s
  operand : ∀ s, 2 * s.items.length + 1 ≤ rounds → c.operand s = d.operand s
  word : ∀ w s, 2 * s.items.length + 2 ≤ rounds → c.word w s = d.word w s
  arguments : ∀ s, 2 * s.items.length + 3 ≤ rounds → c.arguments s = d.arguments s
  operators : ∀ power lhs s, 2 * s.items.length + 1 ≤ rounds →
    c.operators power lhs s = d.operators power lhs s
  commandArguments : ∀ a s, 2 * s.items.length + 1 ≤ rounds →
    c.commandArguments a s = d.commandArguments a s
  statement : ∀ s, 2 * s.items.length + 1 ≤ rounds → c.statement s = d.statement s
  statements : ∀ s, 2 * s.items.length + 2 ≤ rounds → c.statements s = d.statements s

namespace Agree

variable {rounds : Nat} {c d : Parsers} {s : Stream}

theorem step_tree (h : Agree rounds c d) (hc : c.Advance) (power : Nat)
    (hs : 2 * s.items.length + 2 ≤ rounds + 1) : c.step.tree power s = d.step.tree power s :=
  bind_congr (h.operand s (by omega)) fun lhs rest hl =>
    h.operators power lhs rest (by have := hc.operand s lhs rest hl; omega)

theorem step_operand (h : Agree rounds c d) (hs : 2 * s.items.length + 1 ≤ rounds + 1) :
    c.step.operand s = d.step.operand s := by
  refine next_bind_congr fun t hhead => ?_
  cases hk : t.kind
  case identifier =>
    have := Stream.length_tail_of_head hhead (by simp [hk])
    exact h.word t _ (by omega)
  case leftParen =>
    have := Stream.length_tail_of_head hhead (by simp [hk])
    exact bind_congr (h.tree 0 _ (by omega)) fun _ _ _ => rfl
  all_goals rfl

theorem step_word (h : Agree rounds c d) (w : Token)
    (hs : 2 * s.items.length + 2 ≤ rounds + 1) : c.step.word w s = d.step.word w s := by
  refine bind_congr rfl fun taken rest ht => ?_
  cases taken with
  | true =>
    obtain ⟨t, hhead, hk, rfl⟩ := eat_eq_true.1 ht
    have := Stream.length_tail_of_head hhead (by simp [hk])
    exact bind_congr (h.arguments _ (by omega)) fun _ _ _ => rfl
  | false => rfl

/-- A value and the arguments behind it, whatever key they have. -/
theorem callArgument (h : Agree rounds c d) (hc : c.Advance) (key : Option String)
    (hs : 2 * s.items.length + 2 ≤ rounds) :
    (do
      let value ← c.tree 0
      let rest ← c.arguments
      return TreeArguments.cons key value rest) s = (do
      let value ← d.tree 0
      let rest ← d.arguments
      return TreeArguments.cons key value rest) s :=
  bind_congr (h.tree 0 s hs) fun value rest hv =>
    bind_congr (h.arguments rest (by have := hc.tree 0 s value rest hv; omega)) fun _ _ _ => rfl

theorem step_arguments (h : Agree rounds c d) (hc : c.Advance)
    (hs : 2 * s.items.length + 3 ≤ rounds + 1) : c.step.arguments s = d.step.arguments s := by
  refine peek_bind_congr fun t hhead => ?_
  cases hk : t.kind
  case rightParen => rfl
  case endOfFile => rfl
  case identifier =>
    have hlt := Stream.length_tail_of_head hhead (by simp [hk])
    refine next_bind_congr fun w _ => bind_congr rfl fun taken mid ht => ?_
    have hmid := Consumes.eat _ _ _ _ ht
    cases taken with
    | true => exact h.callArgument hc _ (by omega)
    | false =>
      refine bind_congr (h.word w mid (by omega)) fun lhs rest hl => ?_
      have hrest := hc.word w mid lhs rest hl
      refine bind_congr (h.operators 0 lhs rest (by omega)) fun value last hv => ?_
      have hlast := hc.operators 0 lhs rest value last hv
      exact bind_congr (h.arguments last (by omega)) fun _ _ _ => rfl
  all_goals exact h.callArgument hc none (by omega)

theorem step_operators (h : Agree rounds c d) (hc : c.Advance) (power : Nat) (lhs : Tree)
    (hs : 2 * s.items.length + 1 ≤ rounds + 1) :
    c.step.operators power lhs s = d.step.operators power lhs s := by
  refine peek_bind_congr fun t hhead => ?_
  cases ho : Operator.ofToken? t.kind with
  | none => rfl
  | some operator =>
    have hlt := Stream.length_tail_of_head hhead fun hk => by rw [hk] at ho; cases ho
    dsimp only
    split
    · rfl
    · refine next_bind_congr fun _ _ => bind_congr (h.tree _ _ (by omega)) fun rhs mid hr => ?_
      exact h.operators power _ mid (by have := hc.tree _ _ rhs mid hr; omega)

/-- The value of an argument of a command and the arguments behind it. -/
theorem commandArgument (h : Agree rounds c d) (a : Arguments) (key : String)
    (hs : 2 * s.items.length + 1 ≤ rounds + 1) :
    (do
      let value ← argumentValue
      c.commandArguments (a.insert key value)) s = (do
      let value ← argumentValue
      d.commandArguments (a.insert key value)) s :=
  bind_congr rfl fun value rest hv =>
    h.commandArguments _ rest (by have := argumentValue_consumes s value rest hv; omega)

theorem step_commandArguments (h : Agree rounds c d) (a : Arguments)
    (hs : 2 * s.items.length + 1 ≤ rounds + 1) :
    c.step.commandArguments a s = d.step.commandArguments a s := by
  refine peek_bind_congr fun t hhead => ?_
  cases hk : t.kind
  case identifier =>
    have hlt := Stream.length_tail_of_head hhead (by simp [hk])
    refine next_bind_congr fun w _ => bind_congr rfl fun taken mid ht => ?_
    have hmid := Consumes.eat _ _ _ _ ht
    cases taken with
    | true => exact h.commandArgument a _ (by omega)
    | false => exact h.commandArguments _ mid (by omega)
  case number => exact h.commandArgument a _ hs
  case string => exact h.commandArgument a _ hs
  all_goals rfl

theorem step_statement (h : Agree rounds c d) (hc : c.Advance)
    (hs : 2 * s.items.length + 1 ≤ rounds + 1) : c.step.statement s = d.step.statement s := by
  refine next_bind_congr fun t hhead => ?_
  cases hk : t.kind
  case identifier =>
    have := Stream.length_tail_of_head hhead (by simp [hk])
    exact bind_congr (h.commandArguments _ _ (by omega)) fun _ _ _ => rfl
  case guardMark =>
    have := Stream.length_tail_of_head hhead (by simp [hk])
    refine bind_congr (h.tree 0 _ (by omega)) fun condition rest hr => ?_
    have := hc.tree 0 _ condition rest hr
    refine bind_congr rfl fun _ mid hm => ?_
    have := Consumes.skipNewlines _ _ _ hm
    exact bind_congr (h.statement mid (by omega)) fun _ _ _ => rfl
  all_goals rfl

theorem step_statements (h : Agree rounds c d) (hc : c.Advance)
    (hs : 2 * s.items.length + 2 ≤ rounds + 1) : c.step.statements s = d.step.statements s := by
  refine peek_bind_congr fun t hhead => ?_
  have hstatement : (do
        let statement ← c.statement
        let rest ← c.statements
        return statement :: rest) s = (do
        let statement ← d.statement
        let rest ← d.statements
        return statement :: rest) s :=
    bind_congr (h.statement _ (by omega)) fun st mid hst =>
      bind_congr (h.statements mid (by have := hc.statement _ st mid hst; omega)) fun _ _ _ => rfl
  cases hk : t.kind
  case newline =>
    have := Stream.length_tail_of_head hhead (by simp [hk])
    exact next_bind_congr fun _ _ => h.statements _ (by omega)
  case endOfFile => rfl
  all_goals exact hstatement

/-- One round keeps an agreement and makes it hold for larger streams, since the parsers that are
    called find fewer items or need fewer rounds. -/
theorem step (h : Agree rounds c d) (hc : c.Advance) : Agree (rounds + 1) c.step d.step where
  tree power _ := h.step_tree hc power
  operand _ := h.step_operand
  word w _ := h.step_word w
  arguments _ := h.step_arguments hc
  operators power lhs _ := h.step_operators hc power lhs
  commandArguments a _ := h.step_commandArguments a
  statement _ := h.step_statement hc
  statements _ := h.step_statements hc

end Agree

/-- Two bounds that are large enough for a stream come to the same. -/
theorem agree_within (rounds b c : Nat) (hb : rounds ≤ b) (hc : rounds ≤ c) :
    Agree rounds (within b) (within c) := by
  induction rounds generalizing b c with
  | zero => constructor <;> intros <;> omega
  | succ rounds ih =>
    obtain ⟨b, rfl⟩ := Nat.exists_eq_add_of_lt hb
    obtain ⟨c, rfl⟩ := Nat.exists_eq_add_of_lt hc
    rw [within_succ, within_succ]
    exact (ih _ _ (by omega) (by omega)).step (advance_within _)

/-- A large enough bound comes to the same as no bound. -/
theorem agree_whole (rounds : Nat) : Agree rounds (within rounds) whole where
  tree power s hs := (agree_within _ _ (enough s) hs (by simp [enough])).tree power s (by omega)
  operand s hs := (agree_within _ _ (enough s) hs (by simp [enough])).operand s (by omega)
  word w s hs := (agree_within _ _ (enough s) hs (by simp [enough])).word w s (by omega)
  arguments s hs := (agree_within _ _ (enough s) hs (by simp [enough])).arguments s (by omega)
  operators power lhs s hs :=
    (agree_within _ _ (enough s) hs (by simp [enough])).operators power lhs s (by omega)
  commandArguments a s hs :=
    (agree_within _ _ (enough s) hs (by simp [enough])).commandArguments a s (by omega)
  statement s hs := (agree_within _ _ (enough s) hs (by simp [enough])).statement s (by omega)
  statements s hs := (agree_within _ _ (enough s) hs (by simp [enough])).statements s (by omega)

/-- Parsers that come to the same as enough rounds are the same. -/
theorem eq_of_agree {c d : Parsers} (hc : ∀ n, Agree n (within n) c)
    (hd : ∀ n, Agree n (within n) d) : c = d := by
  have hsize : ∀ s : Stream, 2 * s.items.length + 3 ≤ enough s := fun s => by simp [enough]
  obtain ⟨tree, operand, word, arguments, operators, commandArguments, statement, statements⟩ := c
  congr
  · funext power s
    have hs := hsize s
    exact ((hc _).tree power s (by omega)).symm.trans ((hd (enough s)).tree power s (by omega))
  · funext s
    have hs := hsize s
    exact ((hc _).operand s (by omega)).symm.trans ((hd (enough s)).operand s (by omega))
  · funext w s
    have hs := hsize s
    exact ((hc _).word w s (by omega)).symm.trans ((hd (enough s)).word w s (by omega))
  · funext s
    exact ((hc _).arguments s (hsize s)).symm.trans ((hd (enough s)).arguments s (hsize s))
  · funext power lhs s
    have hs := hsize s
    exact ((hc _).operators power lhs s (by omega)).symm.trans
      ((hd (enough s)).operators power lhs s (by omega))
  · funext a s
    have hs := hsize s
    exact ((hc _).commandArguments a s (by omega)).symm.trans
      ((hd (enough s)).commandArguments a s (by omega))
  · funext s
    have hs := hsize s
    exact ((hc _).statement s (by omega)).symm.trans ((hd (enough s)).statement s (by omega))
  · funext s
    have hs := hsize s
    exact ((hc _).statements s (by omega)).symm.trans ((hd (enough s)).statements s (by omega))

/-- Without a bound, the parsers are one round of themselves. -/
theorem whole_eq_step : whole = whole.step := by
  refine eq_of_agree agree_whole fun n => ?_
  cases n with
  | zero => constructor <;> intros <;> omega
  | succ n => exact within_succ n ▸ (agree_whole n).step (advance_within n)

end Parsers

/-! ## The equations of the parsers -/

theorem treeAt_eq (power : Nat) : treeAt power = (do
    let lhs ← operand
    operators power lhs) :=
  congrFun (congrArg Parsers.tree Parsers.whole_eq_step) power

theorem operand_eq : operand = (do
    let t ← next
    match t.kind with
    | .number => return .atom (.number t.text) t.line
    | .string => return .atom (.string t.text) t.line
    | .identifier => wordOperand t
    | .leftParen =>
      let inner ← treeAt 0
      let _ ← expect .rightParen
      return .group inner
    | .endOfFile => fail .unexpectedEnd t
    | actual => fail (.notAnExpression actual) t) :=
  congrArg Parsers.operand Parsers.whole_eq_step

theorem operand_of_word {s : Stream} {t : Token} (h : s.head = .token t)
    (ht : t.kind = .identifier) : operand s = wordOperand t s.tail := by
  rw [operand_eq, bind_of_ok (next_of_token h), ht]

theorem operand_of_paren {s : Stream} {t : Token} (h : s.head = .token t)
    (ht : t.kind = .leftParen) : operand s = (do
      let inner ← treeAt 0
      let _ ← expect .rightParen
      return Tree.group inner) s.tail := by
  rw [operand_eq, bind_of_ok (next_of_token h), ht]

theorem wordOperand_eq (word : Token) : wordOperand word = (do
    if ← eat .leftParen then
      let arguments ← callArguments
      return .call word.text arguments word.line
    else return .atom (.word word.text) word.line) :=
  congrFun (congrArg Parsers.word Parsers.whole_eq_step) word

theorem wordOperand_of_paren {word : Token} {s : Stream} {t : Token} (h : s.head = .token t)
    (ht : t.kind = .leftParen) : wordOperand word s = (do
      let arguments ← callArguments
      return Tree.call word.text arguments word.line) s.tail := by
  rw [wordOperand_eq, bind_of_ok (eat_eq_true.2 ⟨t, h, ht, rfl⟩)]
  rfl

theorem wordOperand_of_not_paren {word : Token} {s : Stream} {t : Token} (h : s.head = .token t)
    (ht : t.kind ≠ .leftParen) :
    wordOperand word s = .ok (.atom (.word word.text) word.line) s := by
  rw [wordOperand_eq, bind_of_ok (eat_eq_false.2 ⟨t, h, ht, rfl⟩)]
  rfl

/-- The key of an argument: a word before a colon. Both are taken. -/
def argumentKey : Parser (Option String) := fun s =>
  match s.items with
  | .token word :: .token colon :: rest =>
    if word.kind = .identifier ∧ colon.kind = .colon then
      .ok (some word.text) { s with items := rest }
    else .ok none s
  | _ => .ok none s

theorem argumentKey_of_colon {s : Stream} {word colon : Token} (hword : word.kind = .identifier)
    (hcolon : colon.kind = .colon) :
    argumentKey (s.prepend [word, colon]) = .ok (some word.text) s := by
  simp [argumentKey, Stream.prepend, hword, hcolon]

/-- Without a word and a colon in front nothing is taken. -/
theorem argumentKey_of_not_colon {s : Stream}
    (h : ∀ word colon, s.head = .token word → word.kind = .identifier →
      s.tail.head = .token colon → colon.kind ≠ .colon) : argumentKey s = .ok none s := by
  obtain ⟨items, stop, line⟩ := s
  rw [argumentKey]
  split
  · next word colon rest hitems =>
    change items = _ at hitems
    subst hitems
    rw [if_neg]
    rintro ⟨hword, hcolon⟩
    exact h word colon rfl hword rfl hcolon
  · rfl

/-- Looking for a key does not fail. -/
theorem argumentKey_ne_error {s rest : Stream} {e : ParseError} :
    argumentKey s ≠ .error e rest := by
  rw [argumentKey]
  split
  · split <;> simp
  · simp

theorem argumentKey_eq_ok {s rest : Stream} {key : Option String} :
    argumentKey s = .ok key rest →
      key = none ∧ rest = s ∨ ∃ word colon, key = some word.text ∧ word.kind = .identifier ∧
        colon.kind = .colon ∧ s = rest.prepend [word, colon] := by
  intro h
  obtain ⟨items, stop, line⟩ := s
  rw [argumentKey] at h
  split at h
  · next word colon items hitems =>
    change _ = _ at hitems
    subst hitems
    split at h
    · next hkinds =>
      cases h
      exact .inr ⟨word, colon, rfl, hkinds.1, hkinds.2, rfl⟩
    · cases h
      exact .inl ⟨rfl, rfl⟩
  · cases h
    exact .inl ⟨rfl, rfl⟩

/-- An expression that starts with a word goes on behind it. -/
theorem treeAt_of_word {power : Nat} {s : Stream} {t : Token} (h : s.head = .token t)
    (ht : t.kind = .identifier) : treeAt power s = (do
      let lhs ← wordOperand t
      operators power lhs) s.tail := by
  rw [treeAt_eq, operand_eq, bind_assoc, bind_of_ok (next_of_token h), ht]

/-- Whether a word is the key of an argument can be told behind it, or before it is taken. -/
theorem argument_of_word {α : Type} {f : Option String → Tree → Parser α} {s : Stream} {t : Token}
    (h : s.head = .token t) (ht : t.kind = .identifier) :
    (do
      if ← eat .colon then
        let value ← treeAt 0
        f (some t.text) value
      else
        let lhs ← wordOperand t
        let value ← operators 0 lhs
        f none value) s.tail = (do
      let key ← argumentKey
      let value ← treeAt 0
      f key value) s := by
  have hkeyless : (∀ colon, s.tail.head = .token colon → colon.kind ≠ .colon) →
      argumentKey s = .ok none s := fun hne =>
    argumentKey_of_not_colon fun _ colon _ _ => hne colon
  cases hsecond : s.tail.head with
  | error e =>
    rw [bind_of_error (eat_of_error hsecond), bind_of_ok (hkeyless (by simp [hsecond])),
      bind_of_error]
    rw [treeAt_of_word h ht, wordOperand_eq, bind_assoc, bind_of_error (eat_of_error hsecond)]
  | token colon =>
    by_cases hcolon : colon.kind = .colon
    · have hs : s = s.tail.tail.prepend [t, colon] := by
        rw [show [t, colon] = [t] ++ [colon] from rfl, ← Stream.prepend_prepend,
          ← Stream.eq_prepend_of_head hsecond (by simp [hcolon])]
        exact Stream.eq_prepend_of_head h (by simp [ht])
      have hkey : argumentKey s = .ok (some t.text) s.tail.tail := by
        conv => lhs; rw [hs]
        exact argumentKey_of_colon ht hcolon
      rw [bind_of_ok (eat_eq_true.2 ⟨colon, hsecond, hcolon, rfl⟩), bind_of_ok hkey]
      rfl
    · rw [bind_of_ok (eat_eq_false.2 ⟨colon, hsecond, hcolon, rfl⟩),
        bind_of_ok (hkeyless (by simpa [hsecond] using hcolon)), bind_apply (treeAt 0),
        treeAt_of_word h ht, ← bind_apply, bind_assoc]
      rfl

/-- An argument that starts with a word goes on like any other expression, unless the word is its
    key. -/
theorem callArguments_eq : callArguments = (do
    let t ← peek
    match t.kind with
    | .rightParen =>
      let _ ← next
      return .nil
    | .endOfFile => fail .unexpectedEnd t
    | _ =>
      let key ← argumentKey
      let value ← treeAt 0
      let rest ← callArguments
      return .cons key value rest) := by
  refine (congrArg Parsers.arguments Parsers.whole_eq_step).trans ?_
  funext s
  refine peek_bind_congr fun t hhead => ?_
  have hkeyless : argumentKey s = .ok none s → (do
      let key ← argumentKey
      let value ← treeAt 0
      let rest ← callArguments
      return TreeArguments.cons key value rest) s = (do
      let value ← treeAt 0
      let rest ← callArguments
      return TreeArguments.cons none value rest) s := bind_of_ok
  cases hk : t.kind
  case rightParen => rfl
  case endOfFile => rfl
  case identifier =>
    refine (bind_of_ok (next_of_token hhead)).trans ?_
    exact argument_of_word hhead hk (f := fun key value => do
      let rest ← callArguments
      return TreeArguments.cons key value rest)
  all_goals
    refine (hkeyless (argumentKey_of_not_colon fun word colon hword hkind => ?_)).symm
    rw [hhead] at hword
    cases hword
    simp [hk] at hkind

theorem callArguments_of_token {s : Stream} {t : Token} (h : s.head = .token t) :
    callArguments s =
      if t.kind = .rightParen then .ok .nil s.tail
      else if t.kind = .endOfFile then .error (.atToken .unexpectedEnd t) s
      else (do
        let key ← argumentKey
        let value ← treeAt 0
        let rest ← callArguments
        return TreeArguments.cons key value rest) s := by
  conv => lhs; rw [callArguments_eq]
  rw [bind_of_ok (peek_of_token h)]
  cases t.kind
  case rightParen => exact bind_of_ok (next_of_token h)
  all_goals rfl

theorem operators_eq (power : Nat) (lhs : Tree) : operators power lhs = (do
    let t ← peek
    match Operator.ofToken? t.kind with
    | none => return lhs
    | some operator =>
      if operator.powers.1 < power then return lhs
      else
        let _ ← next
        let rhs ← treeAt operator.powers.2
        operators power (operator.join lhs rhs)) :=
  congrFun (congrFun (congrArg Parsers.operators Parsers.whole_eq_step) power) lhs

/-- What is no operator, or one that is too loose, stays where it is. -/
theorem operators_of_stop {power : Nat} {lhs : Tree} {s : Stream} {t : Token}
    (h : s.head = .token t) (hstop : ∀ o, Operator.ofToken? t.kind = some o → o.powers.1 < power) :
    operators power lhs s = .ok lhs s := by
  rw [operators_eq, bind_of_ok (peek_of_token h)]
  cases ho : Operator.ofToken? t.kind with
  | none => rfl
  | some o =>
    dsimp only
    rw [if_pos (hstop o ho)]
    rfl

theorem operators_of_operator {power : Nat} {lhs : Tree} {s : Stream} {t : Token} {o : Operator}
    (h : s.head = .token t) (ho : Operator.ofToken? t.kind = some o) (hpower : power ≤ o.powers.1) :
    operators power lhs s = (do
      let rhs ← treeAt o.powers.2
      operators power (o.join lhs rhs)) s.tail := by
  conv => lhs; rw [operators_eq]
  rw [bind_of_ok (peek_of_token h), ho]
  dsimp only
  rw [if_neg (Nat.not_lt_of_le hpower), bind_of_ok (next_of_token h)]

theorem commandArguments_eq (a : Arguments) : commandArguments a = (do
    let t ← peek
    match t.kind with
    | .identifier =>
      let word ← next
      if ← eat .colon then
        let value ← argumentValue
        commandArguments (a.insert word.text value)
      else commandArguments (a.insert Arguments.defaultKey (.word word.text))
    | .number | .string =>
      let value ← argumentValue
      commandArguments (a.insert Arguments.defaultKey value)
    | _ => return a) :=
  congrFun (congrArg Parsers.commandArguments Parsers.whole_eq_step) a

theorem statement_eq : statement = (do
    let first ← next
    match first.kind with
    | .string =>
      terminator
      return .dialogue first.text first.line
    | .identifier =>
      let arguments ← commandArguments .empty
      terminator
      return .command first.text arguments first.line
    | .guardMark =>
      let condition ← treeAt 0
      skipNewlines
      let body ← statement
      skipNewlines
      let label ← jump
      return .conditional (.ofTree condition) body label first.line
    | .endOfFile => fail .unexpectedEnd first
    | actual => fail (.notAStatement actual) first) :=
  congrArg Parsers.statement Parsers.whole_eq_step

theorem statements_eq : statements = (do
    let first ← peek
    match first.kind with
    | .newline =>
      let _ ← next
      statements
    | .endOfFile => return []
    | _ =>
      let statement ← statement
      let rest ← statements
      return statement :: rest) :=
  congrArg Parsers.statements Parsers.whole_eq_step

end Parser

end StageScript
