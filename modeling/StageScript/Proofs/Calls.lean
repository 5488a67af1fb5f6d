import StageScript.Proofs.Lookahead
import StageScript.Proofs.Recursion

set_option autoImplicit false

/-! # Parsers read by calls

All that a parser does to its stream is to look at the next item and to take it, and all that it
knows of the stream are the items that it has found that way (`Parser.Asks`). So a reader with a
lookahead can stand in for the stream: it answers the same calls with the same items, and shows
afterwards what the parser leaves (`Parser.Asks.reader`). -/

namespace StageScript

/-- The reply with another stream that is left. -/
def Reply.leaving {α : Type} (r : Reply α) (rest : Stream) : Reply α :=
  match r with
  | .ok a _ => .ok a rest
  | .error e _ => .error e rest

theorem Stream.length_found (s : Stream) (calls : List Reader.Call) :
    (s.found calls).length = calls.length := by
  induction calls generalizing s with
  | nil => rfl
  | cons c calls ih => exact congrArg (· + 1) (ih _)

namespace Parser

variable {α β : Type}

/-! ## Calls of a parser -/

/-- The parser makes some calls on the stream, replies by what they find, and leaves what is behind
    them: on any stream on which they find the same it comes to the same. -/
def Asks (p : Parser α) (s : Stream) : Prop :=
  ∃ calls, ∀ s', s'.found calls = s.found calls → p s' = (p s).leaving (s'.afterCalls calls)

/-- What a parser leaves is what a reader has left after its calls. -/
theorem Asks.reader {p : Parser α} {s : Stream} (h : p.Asks s) {r : Reader} (hr : r.Shows s) :
    ∃ calls, (r.after calls).Shows (p s).rest := by
  obtain ⟨calls, hcalls⟩ := h
  refine ⟨calls, ?_⟩
  have hrest : (p s).rest = s.afterCalls calls := by
    rw [hcalls s rfl]
    cases p s <;> rfl
  rw [hrest]
  exact (hr.answers calls).2

theorem asks_pure (a : α) (s : Stream) : (pure a : Parser α).Asks s := ⟨[], fun _ _ => rfl⟩

theorem asks_fail (kind : ParseErrorKind) (t : Token) (s : Stream) :
    (fail kind t : Parser α).Asks s := ⟨[], fun _ _ => rfl⟩

theorem asks_bind {p : Parser α} {f : α → Parser β} {s : Stream} (hp : p.Asks s)
    (hf : ∀ a rest, p s = .ok a rest → (f a).Asks rest) : (p >>= f).Asks s := by
  obtain ⟨calls, hcalls⟩ := hp
  cases h : p s with
  | error e rest =>
    refine ⟨calls, fun s' hs' => ?_⟩
    have hs := hcalls s' hs'
    rw [h] at hs
    rw [bind_of_error h, bind_of_error hs]
    rfl
  | ok a rest =>
    obtain ⟨more, hmore⟩ := hf a rest h
    have hrest : rest = s.afterCalls calls := by
      have hs := hcalls s rfl
      rw [h] at hs
      exact (Reply.ok.inj hs).2
    refine ⟨calls ++ more, fun s' hs' => ?_⟩
    rw [Stream.found_append, Stream.found_append] at hs'
    obtain ⟨hfirst, hsecond⟩ := List.append_inj hs' (by rw [s'.length_found, s.length_found])
    have hs := hcalls s' hfirst
    rw [h] at hs
    rw [bind_of_ok h, bind_of_ok hs, hmore _ (hrest ▸ hsecond), Stream.afterCalls_append]

theorem asks_peek (s : Stream) : peek.Asks s := by
  refine ⟨[.peek], fun s' hs' => ?_⟩
  have hhead : s'.head = s.head := (List.cons.inj hs').1
  cases h : s.head with
  | token t =>
    rw [peek_of_token h, peek_of_token (hhead.trans h)]
    rfl
  | error e =>
    rw [peek_of_error h, peek_of_error (hhead.trans h)]
    rfl

theorem asks_next (s : Stream) : next.Asks s := by
  refine ⟨[.next], fun s' hs' => ?_⟩
  have hhead : s'.head = s.head := (List.cons.inj hs').1
  cases h : s.head with
  | token t =>
    rw [next_of_token h, next_of_token (hhead.trans h)]
    rfl
  | error e =>
    rw [next_of_error h, next_of_error (hhead.trans h)]
    rfl

theorem asks_peek_bind {f : Token → Parser β} {s : Stream}
    (hf : ∀ t, s.head = .token t → (f t).Asks s) : (peek >>= f).Asks s := by
  refine asks_bind (asks_peek s) fun t rest h => ?_
  obtain ⟨hhead, rfl⟩ := peek_eq_ok.1 h
  exact hf t hhead

theorem asks_next_bind {f : Token → Parser β} {s : Stream}
    (hf : ∀ t, s.head = .token t → (f t).Asks s.tail) : (next >>= f).Asks s := by
  refine asks_bind (asks_next s) fun t rest h => ?_
  obtain ⟨hhead, rfl⟩ := next_eq_ok.1 h
  exact hf t hhead

/-! ## Single items -/

theorem asks_eat (kind : TokenKind) (s : Stream) : (eat kind).Asks s := by
  refine asks_peek_bind fun t _ => ?_
  split
  · exact asks_next_bind fun _ _ => asks_pure true _
  · exact asks_pure false s

theorem asks_expect (kind : TokenKind) (s : Stream) : (expect kind).Asks s := by
  refine asks_next_bind fun t _ => ?_
  split
  · exact asks_pure t _
  · exact asks_fail _ t _

theorem asks_terminator (s : Stream) : terminator.Asks s := by
  refine asks_peek_bind fun t _ => ?_
  split
  · exact asks_pure () s
  · exact asks_next_bind fun _ _ => asks_pure () _
  · exact asks_fail _ t s

/-- Skipping newlines takes one after the other. -/
theorem skipNewlines_eq : skipNewlines = (do
    if ← eat .newline then skipNewlines
    else return) := by
  funext s
  cases hhead : s.head with
  | error e =>
    have hdrop : s.dropNewlines = s := Stream.dropNewlines_of_isNewline (by rw [hhead]; rfl)
    rw [bind_of_error (eat_of_error hhead), skipNewlines_of_error (hdrop.symm ▸ hhead), hdrop]
  | token t =>
    by_cases hk : t.kind = .newline
    · have hdrop : s.dropNewlines = s.tail.dropNewlines := by
        conv => lhs; rw [Stream.eq_prepend_of_head hhead (by simp [hk])]
        exact Stream.dropNewlines_cons hk [] s.tail
      rw [bind_of_ok (eat_eq_true.2 ⟨t, hhead, hk, rfl⟩)]
      exact congrArg (peek >>= fun _ => (pure () : Parser Unit)) hdrop
    · have hdrop := Stream.dropNewlines_of_head hhead hk
      rw [bind_of_ok (eat_eq_false.2 ⟨t, hhead, hk, rfl⟩),
        skipNewlines_of_token (hdrop.symm ▸ hhead), hdrop]
      rfl

theorem asks_skipNewlines (s : Stream) : skipNewlines.Asks s := by
  rw [skipNewlines_eq]
  refine asks_bind (asks_eat .newline s) fun taken rest h => ?_
  cases taken with
  | true =>
    obtain ⟨t, hhead, hk, rfl⟩ := eat_eq_true.1 h
    have hlt := Stream.length_tail_of_head hhead (by simp [hk])
    exact asks_skipNewlines s.tail
  | false => exact asks_pure () rest
termination_by s.items.length

/-! ## Expressions -/

mutual

theorem asks_treeAt (power : Nat) (s : Stream) : (treeAt power).Asks s := by
  rw [treeAt_eq]
  refine asks_bind (asks_operand s) fun lhs rest hlhs => ?_
  have hlt := Parsers.advance_whole.operand s lhs rest hlhs
  exact asks_operators power lhs rest
termination_by 2 * s.items.length + 2

theorem asks_operand (s : Stream) : operand.Asks s := by
  rw [operand_eq]
  refine asks_next_bind fun t hhead => ?_
  cases hk : t.kind
  case number => exact asks_pure _ _
  case string => exact asks_pure _ _
  case identifier =>
    have hlt := Stream.length_tail_of_head hhead (by simp [hk])
    exact asks_wordOperand t s.tail
  case leftParen =>
    have hlt := Stream.length_tail_of_head hhead (by simp [hk])
    exact asks_bind (asks_treeAt 0 s.tail) fun inner close _ =>
      asks_bind (asks_expect .rightParen close) fun _ done _ => asks_pure _ done
  all_goals exact asks_fail _ t _
termination_by 2 * s.items.length + 1

theorem asks_wordOperand (word : Token) (s : Stream) : (wordOperand word).Asks s := by
  rw [wordOperand_eq]
  refine asks_bind (asks_eat .leftParen s) fun taken rest htaken => ?_
  cases taken with
  | true =>
    obtain ⟨t, hhead, hk, rfl⟩ := eat_eq_true.1 htaken
    have hlt := Stream.length_tail_of_head hhead (by simp [hk])
    exact asks_bind (asks_callArguments s.tail) fun _ done _ => asks_pure _ done
  | false => exact asks_pure _ rest
termination_by 2 * s.items.length + 2

-- `argumentKey` tells a key by two items at once, so the round itself is followed here
theorem asks_callArguments (s : Stream) : callArguments.Asks s := by
  have hround : callArguments = Parsers.whole.step.arguments :=
    congrArg Parsers.arguments Parsers.whole_eq_step
  rw [hround]
  refine asks_peek_bind fun t hhead => ?_
  have hargument : ∀ (key : Option String) (start : Stream),
      start.items.length ≤ s.items.length → (do
        let value ← treeAt 0
        let rest ← callArguments
        return TreeArguments.cons key value rest : Parser TreeArguments).Asks start := by
    intro key start hle
    refine asks_bind (asks_treeAt 0 start) fun value more hvalue => ?_
    have hlt := Parsers.advance_whole.tree _ _ value more hvalue
    exact asks_bind (asks_callArguments more) fun _ done _ => asks_pure _ done
  cases hk : t.kind
  case rightParen => exact asks_next_bind fun _ _ => asks_pure _ _
  case endOfFile => exact asks_fail _ t s
  case identifier =>
    have hlt := Stream.length_tail_of_head hhead (by simp [hk])
    refine asks_next_bind fun word _ => ?_
    refine asks_bind (asks_eat .colon s.tail) fun taken start htaken => ?_
    cases taken with
    | true =>
      obtain ⟨colon, -, -, rfl⟩ := eat_eq_true.1 htaken
      exact hargument _ _ (by have := s.tail.length_tail_le; omega)
    | false =>
      obtain ⟨-, -, -, rfl⟩ := eat_eq_false.1 htaken
      refine asks_bind (asks_wordOperand word s.tail) fun lhs behind hlhs => ?_
      have hle := Parsers.advance_whole.word _ _ lhs behind hlhs
      refine asks_bind (asks_operators 0 lhs behind) fun value more hvalue => ?_
      have hle' := Parsers.advance_whole.operators _ _ _ value more hvalue
      exact asks_bind (asks_callArguments more) fun _ done _ => asks_pure _ done
  all_goals exact hargument none s (Nat.le_refl _)
termination_by 2 * s.items.length + 3

theorem asks_operators (power : Nat) (lhs : Tree) (s : Stream) : (operators power lhs).Asks s := by
  rw [operators_eq]
  refine asks_peek_bind fun t hhead => ?_
  cases ho : Operator.ofToken? t.kind with
  | none => exact asks_pure lhs s
  | some o =>
    dsimp only
    split
    · exact asks_pure lhs s
    · have hlt := Stream.length_tail_of_head hhead fun hk => by rw [hk] at ho; cases ho
      refine asks_next_bind fun _ _ => asks_bind (asks_treeAt o.powers.2 s.tail)
        fun rhs more hrhs => ?_
      have hlt' := Parsers.advance_whole.tree _ _ rhs more hrhs
      exact asks_operators power (o.join lhs rhs) more
termination_by 2 * s.items.length + 1

end

/-! ## Statements -/

theorem asks_argumentValue (s : Stream) : argumentValue.Asks s := by
  refine asks_next_bind fun t _ => ?_
  split
  · exact asks_pure _ _
  · exact asks_pure _ _
  · exact asks_pure _ _
  · exact asks_fail _ t _
  · exact asks_fail _ t _

theorem asks_commandArguments (a : Arguments) (s : Stream) : (commandArguments a).Asks s := by
  rw [commandArguments_eq]
  refine asks_peek_bind fun t hhead => ?_
  have hvalue : ∀ (start : Stream) (key : String), start.items.length ≤ s.items.length →
      (do
        let value ← argumentValue
        commandArguments (a.insert key value) : Parser Arguments).Asks start := by
    intro start key hle
    refine asks_bind (asks_argumentValue start) fun value more hmore => ?_
    have hlt := Parsers.argumentValue_consumes _ value more hmore
    exact asks_commandArguments _ more
  cases hk : t.kind
  case identifier =>
    have hlt := Stream.length_tail_of_head hhead (by simp [hk])
    refine asks_next_bind fun word _ => asks_bind (asks_eat .colon s.tail)
      fun taken start htaken => ?_
    cases taken with
    | true =>
      obtain ⟨colon, -, -, rfl⟩ := eat_eq_true.1 htaken
      exact hvalue _ _ (by have := s.tail.length_tail_le; omega)
    | false =>
      obtain ⟨-, -, -, rfl⟩ := eat_eq_false.1 htaken
      exact asks_commandArguments _ s.tail
  case number => exact hvalue s _ (Nat.le_refl _)
  case string => exact hvalue s _ (Nat.le_refl _)
  all_goals exact asks_pure a s
termination_by s.items.length

theorem asks_jump (s : Stream) : jump.Asks s := by
  refine asks_bind (asks_eat .arrow s) fun taken rest _ => ?_
  cases taken with
  | true =>
    exact asks_bind (asks_expect .identifier rest) fun _ behind _ =>
      asks_bind (asks_terminator behind) fun _ last _ => asks_pure _ last
  | false => exact asks_pure _ rest

theorem asks_statement (s : Stream) : statement.Asks s := by
  rw [statement_eq]
  refine asks_next_bind fun first hhead => ?_
  cases hk : first.kind
  case string => exact asks_bind (asks_terminator s.tail) fun _ done _ => asks_pure _ done
  case identifier =>
    exact asks_bind (asks_commandArguments _ s.tail) fun _ close _ =>
      asks_bind (asks_terminator close) fun _ done _ => asks_pure _ done
  case guardMark =>
    have hlt := Stream.length_tail_of_head hhead (by simp [hk])
    refine asks_bind (asks_treeAt 0 s.tail) fun condition behind hcondition => ?_
    have hlt' := Parsers.advance_whole.tree _ _ condition behind hcondition
    refine asks_bind (asks_skipNewlines behind) fun _ start hstart => ?_
    have hle := Consumes.skipNewlines _ _ start hstart
    exact asks_bind (asks_statement start) fun _ done _ =>
      asks_bind (asks_skipNewlines done) fun _ behind _ =>
        asks_bind (asks_jump behind) fun _ last _ => asks_pure _ last
  all_goals exact asks_fail _ first _
termination_by s.items.length

theorem asks_statements (s : Stream) : statements.Asks s := by
  rw [statements_eq]
  refine asks_peek_bind fun first hhead => ?_
  have hstatement : (do
      let st ← statement
      let more ← statements
      return st :: more : Parser (List Statement)).Asks s := by
    refine asks_bind (asks_statement s) fun st behind hst => ?_
    have hlt := Parsers.advance_whole.statement _ st behind hst
    exact asks_bind (asks_statements behind) fun _ done _ => asks_pure _ done
  cases hk : first.kind
  case newline =>
    have hlt := Stream.length_tail_of_head hhead (by simp [hk])
    exact asks_next_bind fun _ _ => asks_statements s.tail
  case endOfFile => exact asks_pure [] s
  all_goals exact hstatement
termination_by s.items.length

theorem asks_expression (s : Stream) : expression.Asks s := by
  rw [expression_eq]
  exact asks_bind (asks_treeAt 0 s) fun _ rest _ => asks_pure _ rest

theorem asks_program (s : Stream) : program.Asks s := by
  rw [program_eq]
  exact asks_bind (asks_statements s) fun _ rest _ => asks_pure _ rest

end Parser

end StageScript
