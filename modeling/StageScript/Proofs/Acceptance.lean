import StageScript.Proofs.Lexeme
import StageScript.Proofs.Recognizer

set_option autoImplicit false

/-! # The parser and the recognizer

The parser fails at the item at which the recognizer is stuck first, and where it succeeds the
recognizer is in the state that belongs to what has been read. `Reply.Tracks` says this of one
parser; it is proved of every parser in turn, along the recursion of the parsers. -/

namespace StageScript

/-! ## Where the recognizer is stuck -/

/-- The kind of a token; a lexical error has none. -/
def Item.kind? : Item → Option TokenKind
  | token t => some t.kind
  | error _ => none

namespace Recognizer

/-- The state behind an item: no script goes on with a lexical error. -/
def stepItem (q : State) (x : Item) : Option State := x.kind?.bind (step q)

/-- The first item with which the recognizer does not go on. -/
def stuckAt? : State → List Item → Option Item
  | _, [] => none
  | q, x :: xs =>
    match stepItem q x with
    | some r => stuckAt? r xs
    | none => some x

theorem stuckAt?_cons_of_step {q r : State} {x : Item} {xs : List Item}
    (h : stepItem q x = some r) : stuckAt? q (x :: xs) = stuckAt? r xs := by
  rw [stuckAt?, h]

theorem stuckAt?_cons_of_none {q : State} {x : Item} {xs : List Item} (h : stepItem q x = none) :
    stuckAt? q (x :: xs) = some x := by
  rw [stuckAt?, h]

theorem stuckAt?_eq_none {q r : State} {ts : List Token}
    (h : run q (ts.map Token.kind) = some r) : stuckAt? q (ts.map Item.token) = none := by
  induction ts generalizing q with
  | nil => rfl
  | cons t ts ih =>
    rw [List.map_cons, run] at h
    obtain ⟨next, hnext, hrun⟩ := Option.bind_eq_some_iff.1 h
    rw [List.map_cons, stuckAt?_cons_of_step (x := .token t) hnext]
    exact ih hrun

/-- Up to the item at which it is stuck the recognizer has read tokens. -/
theorem exists_of_stuckAt? {q : State} {xs : List Item} {x : Item} (h : stuckAt? q xs = some x) :
    ∃ before r after, xs = List.map Item.token before ++ x :: after ∧
      run q (before.map Token.kind) = some r ∧ stepItem r x = none := by
  induction xs generalizing q with
  | nil => cases h
  | cons y ys ih =>
    cases hstep : stepItem q y with
    | none =>
      rw [stuckAt?_cons_of_none hstep] at h
      cases h
      exact ⟨[], q, ys, rfl, rfl, hstep⟩
    | some next =>
      rw [stuckAt?_cons_of_step hstep] at h
      obtain ⟨before, r, after, rfl, hrun, hstuck⟩ := ih h
      cases y with
      | error e => cases hstep
      | token t => exact ⟨t :: before, r, after, rfl, (run_cons_of_step hstep).trans hrun, hstuck⟩

end Recognizer

open Recognizer

namespace Stream

/-- The first item of the stream with which the recognizer does not go on. -/
def stuckAt? (s : Stream) (q : State) : Option Item := Recognizer.stuckAt? q s.toList

theorem exists_toList_eq (s : Stream) : ∃ xs, s.toList = s.head :: xs := by
  obtain ⟨items, stop, line⟩ := s
  cases items with
  | nil => exact ⟨[], rfl⟩
  | cons x xs => exact ⟨_, rfl⟩

variable {s : Stream} {q r : State}

theorem stuckAt?_of_none (h : stepItem q s.head = none) : s.stuckAt? q = some s.head := by
  obtain ⟨xs, hxs⟩ := s.exists_toList_eq
  rw [stuckAt?, hxs, stuckAt?_cons_of_none h]

theorem stuckAt?_of_error {e : LexicalError} (h : s.head = .error e) :
    s.stuckAt? q = some (.error e) := by
  rw [stuckAt?_of_none (by rw [h]; rfl), h]

theorem stuckAt?_of_token {t : Token} (h : s.head = .token t) (hstep : step q t.kind = none) :
    s.stuckAt? q = some (.token t) := by
  rw [stuckAt?_of_none (by rw [h]; exact hstep), h]

/-- States that go on with the next token in the same way are stuck at the same item. -/
theorem stuckAt?_congr (h : ∀ t, s.head = .token t → step q t.kind = step r t.kind) :
    s.stuckAt? q = s.stuckAt? r := by
  obtain ⟨xs, hxs⟩ := s.exists_toList_eq
  have hstep : stepItem q s.head = stepItem r s.head := by
    cases hhead : s.head with
    | token t => exact h t hhead
    | error e => rfl
  rw [stuckAt?, stuckAt?, hxs, Recognizer.stuckAt?, Recognizer.stuckAt?, hstep]

theorem stuckAt?_congr_of_head {t : Token} (h : s.head = .token t)
    (hstep : step q t.kind = step r t.kind) : s.stuckAt? q = s.stuckAt? r := by
  refine stuckAt?_congr fun u hu => ?_
  rw [h] at hu
  cases hu
  exact hstep

theorem stuckAt?_of_step {t : Token} (h : s.head = .token t) (ht : t.kind ≠ .endOfFile)
    (hstep : step q t.kind = some r) : s.stuckAt? q = s.tail.stuckAt? r := by
  conv => lhs; rw [eq_prepend_of_head h ht, stuckAt?, toList_prepend]
  exact stuckAt?_cons_of_step hstep

theorem stuckAt?_dropNewlines (s : Stream) (h : step q .newline = some q) :
    s.stuckAt? q = s.dropNewlines.stuckAt? q := by
  obtain ⟨ns, hns, hs, -⟩ := s.exists_newlines
  conv => lhs; rw [hs, stuckAt?, toList_prepend]
  clear hs
  induction ns with
  | nil => rfl
  | cons n ns ih =>
    have hn : stepItem q (.token n) = some q := by
      change step q n.kind = some q
      rw [hns n (by simp), h]
    rw [List.map_cons, List.cons_append, stuckAt?_cons_of_step hn]
    exact ih fun m hm => hns m (by simp [hm])

end Stream

/-! ## What it is to track -/

/-- The error tells where the item is, and passes it on if it is a lexical error. -/
structure ParseError.At (e : ParseError) (x : Item) : Prop where
  span : e.span = x.span
  line : e.line = x.line
  lexical : ∀ l, e.kind = .lexical l ↔ x = .error l

theorem ParseError.At.of_lexical (e : LexicalError) : (ParseError.ofLexical e).At (.error e) :=
  ⟨rfl, rfl, fun l => by simp [ParseError.ofLexical]⟩

theorem ParseError.At.of_token {kind : ParseErrorKind} {t : Token} (h : ∀ l, kind ≠ .lexical l) :
    (ParseError.atToken kind t).At (.token t) :=
  ⟨rfl, rfl, fun l => by simp [ParseError.atToken, h l]⟩

/-- An error is at the item at which the recognizer is stuck, and a success is as told. -/
def Reply.Tracks {α : Type} (r : Reply α) (stuck : Option Item) (good : α → Stream → Prop) : Prop :=
  match r with
  | .ok a rest => good a rest
  | .error e _ => ∃ x, stuck = some x ∧ e.At x

namespace Parser

variable {α β : Type} {s : Stream} {q r : State} {stuck : Option Item}

theorem tracks_bind {p : Parser α} {f : α → Parser β} {good : α → Stream → Prop}
    {good' : β → Stream → Prop} (hp : (p s).Tracks stuck good)
    (hf : ∀ a rest, p s = .ok a rest → good a rest → (f a rest).Tracks stuck good') :
    ((p >>= f) s).Tracks stuck good' := by
  rw [bind_apply]
  cases h : p s with
  | ok a rest =>
    rw [h] at hp
    exact hf a rest h hp
  | error e rest =>
    rw [h] at hp
    exact hp

theorem tracks_fail {kind : ParseErrorKind} {t : Token} {good : α → Stream → Prop}
    (hstuck : stuck = some (.token t)) (hkind : ∀ l, kind ≠ .lexical l) :
    ((fail kind t : Parser α) s).Tracks stuck good :=
  ⟨_, hstuck, ParseError.At.of_token hkind⟩

theorem tracks_next : (next s).Tracks (s.stuckAt? q) fun t rest =>
    s.head = .token t ∧ rest = s.tail := by
  cases h : s.head with
  | token t =>
    rw [next_of_token h]
    exact ⟨rfl, rfl⟩
  | error e =>
    rw [next_of_error h]
    exact ⟨_, Stream.stuckAt?_of_error h, .of_lexical e⟩

theorem tracks_peek : (peek s).Tracks (s.stuckAt? q) fun t rest =>
    s.head = .token t ∧ rest = s := by
  cases h : s.head with
  | token t =>
    rw [peek_of_token h]
    exact ⟨rfl, rfl⟩
  | error e =>
    rw [peek_of_error h]
    exact ⟨_, Stream.stuckAt?_of_error h, .of_lexical e⟩

theorem tracks_eat {kind : TokenKind} : (eat kind s).Tracks (s.stuckAt? q) fun taken rest =>
    ∃ t, s.head = .token t ∧ (taken = true ∧ t.kind = kind ∧ rest = s.tail ∨
      taken = false ∧ t.kind ≠ kind ∧ rest = s) := by
  cases h : s.head with
  | token t =>
    rw [eat_of_token h]
    by_cases hk : t.kind = kind
    · rw [if_pos hk]
      exact ⟨t, rfl, .inl ⟨rfl, hk, rfl⟩⟩
    · rw [if_neg hk]
      exact ⟨t, rfl, .inr ⟨rfl, hk, rfl⟩⟩
  | error e =>
    rw [eat_of_error h]
    exact ⟨_, Stream.stuckAt?_of_error h, .of_lexical e⟩

/-- A token of one kind is expected where the recognizer goes on with no other. -/
theorem tracks_expect {kind : TokenKind}
    (hstuck : ∀ t, s.head = .token t → t.kind ≠ kind → step q t.kind = none) :
    (expect kind s).Tracks (s.stuckAt? q) fun t rest =>
      s.head = .token t ∧ t.kind = kind ∧ rest = s.tail := by
  cases h : s.head with
  | token t =>
    rw [expect_of_token h]
    by_cases hk : t.kind = kind
    · rw [if_pos hk]
      exact ⟨rfl, hk, rfl⟩
    · rw [if_neg hk]
      exact ⟨_, Stream.stuckAt?_of_token h (hstuck t h hk), .of_token (by simp)⟩
  | error e =>
    rw [expect_of_error h]
    exact ⟨_, Stream.stuckAt?_of_error h, .of_lexical e⟩

/-! ## Expressions -/

section Expressions

variable (guards : Nat) (frames : List Frame)

/-- The key of an argument, if there is one, is read where the first token is not yet known to be
    that of an operand. -/
theorem stuckAt?_argumentKey {s rest : Stream} {key : Option String}
    (h : argumentKey s = .ok key rest) (hclose : ∀ t, s.head = .token t → t.kind ≠ .rightParen) :
    s.stuckAt? (.condition guards (.call :: frames) .opened) =
      rest.stuckAt? (.condition guards (.call :: frames) .operand) := by
  rcases argumentKey_eq_ok h with ⟨rfl, rfl⟩ | ⟨word, colon, rfl, hword, hcolon, rfl⟩
  · cases hhead : rest.head with
    | error e => rw [Stream.stuckAt?_of_error hhead, Stream.stuckAt?_of_error hhead]
    | token t =>
      by_cases hk : t.kind = .identifier
      · -- the word is followed by something else than a colon, for it would be a key
        have hne : t.kind ≠ .endOfFile := by simp [hk]
        rw [Stream.stuckAt?_of_step hhead hne
            (r := .condition guards (.call :: frames) .argumentWord) (by rw [hk]; rfl),
          Stream.stuckAt?_of_step hhead hne (r := .condition guards (.call :: frames) .word)
            (by rw [hk]; rfl)]
        refine Stream.stuckAt?_congr fun u hu => ?_
        have hcolon : u.kind ≠ .colon := by
          intro hcolon
          have hrest : rest = rest.tail.tail.prepend [t, u] := by
            conv => lhs; rw [Stream.eq_prepend_of_head hhead hne,
              Stream.eq_prepend_of_head hu (by simp [hcolon])]
            simp
          rw [hrest, argumentKey_of_colon hk hcolon] at h
          cases h
        by_cases hparen : u.kind = .leftParen
        · rw [hparen]
          rfl
        · rw [step_argumentWord hparen hcolon, step_word hparen]
      · have hparen := hclose t hhead
        refine Stream.stuckAt?_congr_of_head hhead ?_
        cases hkind : t.kind <;> first | exact absurd hkind hk | exact absurd hkind hparen | rfl
  · rw [Stream.stuckAt?_of_step (Stream.head_prepend_cons word [colon] rest) (by simp [hword])
        (r := .condition guards (.call :: frames) .argumentWord) (by rw [hword]; rfl),
      Stream.tail_prepend_cons,
      Stream.stuckAt?_of_step (Stream.head_prepend_cons colon [] rest) (by simp [hcolon])
        (r := .condition guards (.call :: frames) .operand) (by rw [hcolon]; rfl)]
    rfl

/-- What follows an expression is a token that is no operator. -/
theorem exists_head_of_treeAt {s rest : Stream} {t : Tree} (h : treeAt 0 s = .ok t rest) :
    ∃ n, rest.head = .token n ∧ ¬Grammar.isInfix n.kind := by
  obtain ⟨n, hn, -, hstop⟩ := (treeAt_sound h).2.stop
  exact ⟨n, hn, Grammar.not_isInfix fun o ho => Nat.not_lt_zero _ (hstop o ho)⟩

mutual

theorem treeAt_tracks (power : Nat) (frames : List Frame) (s : Stream) :
    (treeAt power s).Tracks (s.stuckAt? (.condition guards frames .operand)) fun _ rest =>
      s.stuckAt? (.condition guards frames .operand) =
        rest.stuckAt? (.condition guards frames .complete) := by
  rw [treeAt_eq]
  refine tracks_bind (operand_tracks frames s) fun lhs mid hlhs hmid => ?_
  have hlt := Parsers.advance_whole.operand s lhs mid hlhs
  rw [hmid]
  exact operators_tracks power lhs frames mid
termination_by 2 * s.items.length + 2

theorem operand_tracks (frames : List Frame) (s : Stream) :
    (operand s).Tracks (s.stuckAt? (.condition guards frames .operand)) fun _ rest =>
      s.stuckAt? (.condition guards frames .operand) =
        rest.stuckAt? (.condition guards frames .complete) := by
  rw [operand_eq]
  refine tracks_bind tracks_next fun t mid _ hmid => ?_
  obtain ⟨hhead, rfl⟩ := hmid
  cases hk : t.kind
  case number => exact Stream.stuckAt?_of_step hhead (by simp [hk]) (by rw [hk]; rfl)
  case string => exact Stream.stuckAt?_of_step hhead (by simp [hk]) (by rw [hk]; rfl)
  case identifier =>
    have hlt := Stream.length_tail_of_head hhead (by simp [hk])
    rw [Stream.stuckAt?_of_step hhead (by simp [hk])
      (r := .condition guards frames .word) (by rw [hk]; rfl)]
    exact wordOperand_tracks t frames s.tail
  case leftParen =>
    have hlt := Stream.length_tail_of_head hhead (by simp [hk])
    rw [Stream.stuckAt?_of_step hhead (by simp [hk])
      (r := .condition guards (.group :: frames) .operand) (by rw [hk]; rfl)]
    refine tracks_bind (treeAt_tracks 0 (.group :: frames) s.tail)
      fun inner close hinner hclose => ?_
    rw [hclose]
    -- behind the inner expression there is no operator, so that only the parenthesis is left
    obtain ⟨n, hn, hinfix⟩ := exists_head_of_treeAt hinner
    refine tracks_bind (tracks_expect fun u hu hne => ?_) fun u last _ hlast => ?_
    · rw [hn] at hu
      cases hu
      exact (if_neg hinfix).trans (if_neg hne)
    · obtain ⟨huhead, huk, rfl⟩ := hlast
      exact Stream.stuckAt?_of_step huhead (by simp [huk]) (by rw [huk]; rfl)
  all_goals exact tracks_fail (Stream.stuckAt?_of_token hhead (by rw [hk]; rfl)) (by simp)
termination_by 2 * s.items.length + 1

theorem wordOperand_tracks (word : Token) (frames : List Frame) (s : Stream) :
    (wordOperand word s).Tracks (s.stuckAt? (.condition guards frames .word)) fun _ rest =>
      s.stuckAt? (.condition guards frames .word) =
        rest.stuckAt? (.condition guards frames .complete) := by
  rw [wordOperand_eq]
  refine tracks_bind tracks_eat fun taken mid _ hmid => ?_
  obtain ⟨t, hhead, ⟨rfl, hk, rfl⟩ | ⟨rfl, hk, rfl⟩⟩ := hmid
  · -- the word is the name of a call
    have hlt := Stream.length_tail_of_head hhead (by simp [hk])
    rw [Stream.stuckAt?_of_step hhead (by simp [hk])
      (r := .condition guards (.call :: frames) .opened) (by rw [hk]; rfl)]
    refine tracks_bind (callArguments_tracks frames s.tail) fun a last _ hlast => ?_
    exact hlast
  · exact Stream.stuckAt?_congr_of_head hhead (step_word hk)
termination_by 2 * s.items.length + 2

theorem callArguments_tracks (frames : List Frame) (s : Stream) :
    (callArguments s).Tracks (s.stuckAt? (.condition guards (.call :: frames) .opened))
      fun _ rest => s.stuckAt? (.condition guards (.call :: frames) .opened) =
        rest.stuckAt? (.condition guards frames .complete) := by
  cases hhead : s.head with
  | error e =>
    rw [callArguments_eq, bind_of_error (peek_of_error hhead)]
    exact ⟨_, Stream.stuckAt?_of_error hhead, .of_lexical e⟩
  | token t =>
    rw [callArguments_of_token hhead]
    split
    · next hk => exact Stream.stuckAt?_of_step hhead (by simp [hk]) (by rw [hk]; rfl)
    split
    · next hk =>
      exact ⟨_, Stream.stuckAt?_of_token hhead (by rw [hk]; rfl), .of_token (by simp)⟩
    · next hclose _ =>
      have hfirst : (argumentKey s).Tracks
          (s.stuckAt? (.condition guards (.call :: frames) .opened)) fun _ rest =>
            s.stuckAt? (.condition guards (.call :: frames) .opened) =
              rest.stuckAt? (.condition guards (.call :: frames) .operand) := by
        cases hkey : argumentKey s with
        | ok key start =>
          refine stuckAt?_argumentKey guards frames hkey fun u hu => ?_
          rw [hhead] at hu
          cases hu
          exact hclose
        | error e start => exact absurd hkey argumentKey_ne_error
      refine tracks_bind hfirst fun key start hkey hstart => ?_
      have hle := argumentKey_consumes s key start hkey
      rw [hstart]
      refine tracks_bind (treeAt_tracks 0 (.call :: frames) start) fun value more hvalue hmore => ?_
      have hlt := Parsers.advance_whole.tree _ _ value more hvalue
      -- behind the value there is no operator, so that the recognizer is as far as at the start
      have hmore' : more.stuckAt? (.condition guards (.call :: frames) .complete) =
          more.stuckAt? (.condition guards (.call :: frames) .opened) := by
        obtain ⟨n, hn, hinfix⟩ := exists_head_of_treeAt hvalue
        exact Stream.stuckAt?_congr_of_head hn (if_neg hinfix)
      rw [hmore, hmore']
      refine tracks_bind (callArguments_tracks frames more) fun others last _ hlast => ?_
      exact hlast
termination_by 2 * s.items.length + 3

theorem operators_tracks (power : Nat) (lhs : Tree) (frames : List Frame) (s : Stream) :
    (operators power lhs s).Tracks (s.stuckAt? (.condition guards frames .complete)) fun _ rest =>
      s.stuckAt? (.condition guards frames .complete) =
        rest.stuckAt? (.condition guards frames .complete) := by
  rw [operators_eq]
  refine tracks_bind tracks_peek fun t mid _ hmid => ?_
  obtain ⟨hhead, rfl⟩ := hmid
  cases ho : Operator.ofToken? t.kind with
  | none => exact rfl
  | some o =>
    dsimp only
    split
    · -- an operator that is too loose is left to one of the calls around this one
      exact rfl
    · have hkind : t.kind = o.token := Operator.ofToken?_eq_some.1 ho
      have hne : t.kind ≠ .endOfFile := fun hk => by rw [hk] at ho; cases ho
      have hlt := Stream.length_tail_of_head hhead hne
      have hinfix : Grammar.isInfix t.kind := hkind ▸ Grammar.isInfix_token o
      rw [Stream.stuckAt?_of_step hhead hne
          (step_behind_operator (show Mode.complete.IsBehind from trivial) hinfix),
        bind_of_ok (next_of_token hhead)]
      refine tracks_bind (treeAt_tracks o.powers.2 frames mid.tail) fun rhs more hrhs hmore => ?_
      have hlt' := Parsers.advance_whole.tree _ _ rhs more hrhs
      rw [hmore]
      exact operators_tracks power (o.join lhs rhs) frames more
termination_by 2 * s.items.length + 1

end

end Expressions

/-! ## Statements -/

theorem argumentValue_tracks (guards : Nat) (s : Stream) :
    (argumentValue s).Tracks (s.stuckAt? (.argumentValue guards)) fun _ rest =>
      s.stuckAt? (.argumentValue guards) = rest.stuckAt? (.arguments guards) := by
  refine tracks_bind tracks_next fun t mid _ hmid => ?_
  obtain ⟨hhead, rfl⟩ := hmid
  cases hk : t.kind
  case number => exact Stream.stuckAt?_of_step hhead (by simp [hk]) (by rw [hk]; rfl)
  case string => exact Stream.stuckAt?_of_step hhead (by simp [hk]) (by rw [hk]; rfl)
  case identifier => exact Stream.stuckAt?_of_step hhead (by simp [hk]) (by rw [hk]; rfl)
  all_goals exact tracks_fail (Stream.stuckAt?_of_token hhead (by rw [hk]; rfl)) (by simp)

theorem commandArguments_tracks (guards : Nat) (a : Arguments) (s : Stream) :
    (commandArguments a s).Tracks (s.stuckAt? (.arguments guards)) fun _ rest =>
      s.stuckAt? (.arguments guards) = rest.stuckAt? (.ending guards) := by
  rw [commandArguments_eq]
  refine tracks_bind tracks_peek fun t mid _ hmid => ?_
  obtain ⟨hhead, rfl⟩ := hmid
  -- a value without a key is taken like one behind a key
  have hplain : step (.arguments guards) t.kind = step (.argumentValue guards) t.kind →
      ((do
        let value ← argumentValue
        commandArguments (a.insert Arguments.defaultKey value) : Parser Arguments) mid).Tracks
        (mid.stuckAt? (.arguments guards)) fun _ rest =>
          mid.stuckAt? (.arguments guards) = rest.stuckAt? (.ending guards) := by
    intro hstep
    rw [Stream.stuckAt?_congr_of_head hhead hstep]
    refine tracks_bind (argumentValue_tracks guards mid) fun value more hvalue hmore => ?_
    have hlt := Parsers.argumentValue_consumes _ value more hvalue
    rw [hmore]
    exact commandArguments_tracks guards _ more
  cases hk : t.kind
  case identifier =>
    have hlt := Stream.length_tail_of_head hhead (by simp [hk])
    refine tracks_bind tracks_next fun word tail _ htail => ?_
    obtain ⟨-, rfl⟩ := htail
    rw [Stream.stuckAt?_of_step hhead (by simp [hk]) (r := .argumentWord guards) (by rw [hk]; rfl)]
    refine tracks_bind tracks_eat fun taken start _ hstart => ?_
    obtain ⟨u, huhead, ⟨rfl, huk, rfl⟩ | ⟨rfl, huk, rfl⟩⟩ := hstart
    · have hlt' := Stream.length_tail_of_head huhead (by simp [huk])
      rw [Stream.stuckAt?_of_step huhead (by simp [huk]) (r := .argumentValue guards)
        (by rw [huk]; rfl)]
      refine tracks_bind (argumentValue_tracks guards _) fun value more hvalue hmore => ?_
      have hlt'' := Parsers.argumentValue_consumes _ value more hvalue
      rw [hmore]
      exact commandArguments_tracks guards _ more
    · have hword : step (.argumentWord guards) u.kind = step (.arguments guards) u.kind := by
        cases hkind : u.kind <;> first | exact absurd hkind huk | rfl
      rw [Stream.stuckAt?_congr_of_head huhead hword]
      exact commandArguments_tracks guards _ _
  case number => exact hplain (by rw [hk]; rfl)
  case string => exact hplain (by rw [hk]; rfl)
  all_goals exact Stream.stuckAt?_congr_of_head hhead (by rw [hk]; rfl)
termination_by s.items.length

theorem terminator_tracks (guards : Nat) (s : Stream) :
    (terminator s).Tracks (s.stuckAt? (.ending guards)) fun _ rest =>
      s.stuckAt? (.ending guards) = rest.stuckAt? (.between guards) := by
  refine tracks_bind tracks_peek fun t mid _ hmid => ?_
  obtain ⟨hhead, rfl⟩ := hmid
  cases hk : t.kind
  case endOfFile => exact Stream.stuckAt?_congr_of_head hhead (by rw [hk]; rfl)
  case newline =>
    refine tracks_bind tracks_next fun _ tail _ htail => ?_
    obtain ⟨-, rfl⟩ := htail
    exact Stream.stuckAt?_of_step hhead (by simp [hk]) (by rw [hk]; rfl)
  all_goals exact tracks_fail (Stream.stuckAt?_of_token hhead (by rw [hk]; rfl)) (by simp)

/-- Newlines are skipped where they change nothing. -/
theorem skipNewlines_tracks (s : Stream) {q : State} (hq : step q .newline = some q) :
    (skipNewlines s).Tracks (s.stuckAt? q) fun _ rest =>
      s.stuckAt? q = rest.stuckAt? q ∧ ∀ t, rest.head = .token t → t.kind ≠ .newline := by
  obtain ⟨-, -, -, hnewline⟩ := s.exists_newlines
  rw [s.stuckAt?_dropNewlines hq]
  cases h : s.dropNewlines.head with
  | token t =>
    rw [skipNewlines_of_token h]
    refine ⟨rfl, fun u hu => ?_⟩
    rw [hu] at hnewline
    simpa [isNewline] using hnewline
  | error e =>
    rw [skipNewlines_of_error h]
    exact ⟨_, Stream.stuckAt?_of_error h, .of_lexical e⟩

theorem jump_tracks (guards : Nat) (s : Stream)
    (hline : ∀ t, s.head = .token t → t.kind ≠ .newline) :
    (jump s).Tracks (s.stuckAt? (.between (guards + 1))) fun _ rest =>
      s.stuckAt? (.between (guards + 1)) = rest.stuckAt? (.between guards) := by
  refine tracks_bind tracks_eat fun taken mid _ hmid => ?_
  obtain ⟨t, hhead, ⟨rfl, hk, rfl⟩ | ⟨rfl, hk, rfl⟩⟩ := hmid
  · rw [Stream.stuckAt?_of_step hhead (by simp [hk]) (r := .label guards) (by rw [hk]; rfl)]
    refine tracks_bind (tracks_expect fun u _ hne => if_neg hne) fun word last _ hlast => ?_
    obtain ⟨hword, hwordk, rfl⟩ := hlast
    rw [Stream.stuckAt?_of_step hword (by simp [hwordk]) (q := .label guards) (if_pos hwordk)]
    refine tracks_bind (terminator_tracks guards _) fun _ rest _ hrest => ?_
    exact hrest
  · -- neither a newline nor an arrow tells how many guards there are
    have hnewline := hline t hhead
    refine Stream.stuckAt?_congr_of_head hhead ?_
    cases guards <;>
      cases hkind : t.kind <;>
        first | exact absurd hkind hk | exact absurd hkind hnewline | rfl

theorem statement_tracks (guards : Nat) (s : Stream)
    (hline : ∀ t, s.head = .token t → t.kind ≠ .newline) :
    (statement s).Tracks (s.stuckAt? (.body guards)) fun _ rest =>
      s.stuckAt? (.body guards) = rest.stuckAt? (.between guards) := by
  rw [statement_eq]
  refine tracks_bind tracks_next fun first mid _ hmid => ?_
  obtain ⟨hhead, rfl⟩ := hmid
  have hnewline := hline first hhead
  cases hk : first.kind
  case string =>
    rw [Stream.stuckAt?_of_step hhead (by simp [hk]) (r := .ending guards) (by rw [hk]; rfl)]
    refine tracks_bind (terminator_tracks guards _) fun _ rest _ hrest => ?_
    exact hrest
  case identifier =>
    rw [Stream.stuckAt?_of_step hhead (by simp [hk]) (r := .arguments guards) (by rw [hk]; rfl)]
    refine tracks_bind (commandArguments_tracks guards _ _) fun a close _ hclose => ?_
    rw [hclose]
    refine tracks_bind (terminator_tracks guards _) fun _ rest _ hrest => ?_
    exact hrest
  case guardMark =>
    have hlt := Stream.length_tail_of_head hhead (by simp [hk])
    rw [Stream.stuckAt?_of_step hhead (by simp [hk])
      (r := .condition (guards + 1) [] .operand) (by rw [hk]; rfl)]
    refine tracks_bind (treeAt_tracks (guards + 1) 0 [] s.tail) fun c behind hc hbehind => ?_
    have hlt' := Parsers.advance_whole.tree _ _ c behind hc
    have hbody : behind.stuckAt? (.condition (guards + 1) [] .complete) =
        behind.stuckAt? (.body (guards + 1)) := by
      obtain ⟨n, hn, hinfix⟩ := exists_head_of_treeAt hc
      exact Stream.stuckAt?_congr_of_head hn (if_neg hinfix)
    rw [hbehind, hbody]
    refine tracks_bind (skipNewlines_tracks behind rfl) fun _ start hstart hstart' => ?_
    have hle := Consumes.skipNewlines _ _ start hstart
    rw [hstart'.1]
    refine tracks_bind (statement_tracks (guards + 1) start hstart'.2) fun body done _ hdone => ?_
    rw [hdone]
    refine tracks_bind (skipNewlines_tracks done rfl) fun _ open' _ hopen => ?_
    rw [hopen.1]
    refine tracks_bind (jump_tracks guards open' hopen.2) fun label rest _ hrest => ?_
    exact hrest
  case newline => exact absurd hk hnewline
  all_goals exact tracks_fail (Stream.stuckAt?_of_token hhead (by rw [hk]; rfl)) (by simp)
termination_by s.items.length

theorem statements_tracks (s : Stream) :
    (statements s).Tracks (s.stuckAt? (.between 0)) fun _ rest =>
      s.stuckAt? (.between 0) = rest.stuckAt? (.between 0) := by
  rw [statements_eq]
  refine tracks_bind tracks_peek fun first mid _ hmid => ?_
  obtain ⟨hhead, rfl⟩ := hmid
  have hstatement : first.kind ≠ .newline → first.kind ≠ .endOfFile →
      ((do
        let st ← statement
        let more ← statements
        return st :: more : Parser (List Statement)) mid).Tracks (mid.stuckAt? (.between 0))
        fun _ rest => mid.stuckAt? (.between 0) = rest.stuckAt? (.between 0) := by
    intro hnewline hend
    -- what is no newline starts a statement between others as it does under a guard
    have hbody : mid.stuckAt? (.between 0) = mid.stuckAt? (.body 0) := by
      refine Stream.stuckAt?_congr_of_head hhead ?_
      cases hkind : first.kind <;>
        first | exact absurd hkind hnewline | exact absurd hkind hend | rfl
    rw [hbody]
    refine tracks_bind (statement_tracks 0 mid fun u hu => ?_) fun st next hst hnext => ?_
    · rw [hhead] at hu
      cases hu
      exact hnewline
    · have hlt := Parsers.advance_whole.statement _ st next hst
      rw [hnext]
      refine tracks_bind (statements_tracks next) fun more rest _ hrest => ?_
      exact hrest
  cases hk : first.kind
  case newline =>
    have hlt := Stream.length_tail_of_head hhead (by simp [hk])
    refine tracks_bind tracks_next fun _ tail _ htail => ?_
    obtain ⟨-, rfl⟩ := htail
    rw [Stream.stuckAt?_of_step hhead (by simp [hk]) (r := .between 0) (by rw [hk]; rfl)]
    exact statements_tracks mid.tail
  case endOfFile => exact rfl
  all_goals exact hstatement (by simp [hk]) (by simp [hk])
termination_by s.items.length

end Parser

/-! ## Whole scripts -/

theorem Program.parse_eq_ok {source : String} {p : Program} :
    Program.parse source = .ok p ↔
      ∃ rest, Parser.statements (Stream.ofString source) = .ok p.statements rest := by
  rw [Program.parse, Parser.program_eq, Parser.bind_apply]
  cases Parser.statements (Stream.ofString source) with
  | ok sts rest =>
    constructor
    · rintro ⟨⟩
      exact ⟨rest, rfl⟩
    · rintro ⟨_, h⟩
      cases h
      rfl
  | error e rest => simp [Reply.result]

theorem Program.parse_eq_error {source : String} {e : ParseError} :
    Program.parse source = .error e ↔
      ∃ rest, Parser.statements (Stream.ofString source) = .error e rest := by
  rw [Program.parse, Parser.program_eq, Parser.bind_apply]
  cases Parser.statements (Stream.ofString source) with
  | ok sts rest => simp [Reply.result, Parser.pure_apply]
  | error e' rest => simp [Reply.result, eq_comm]

/-- The parser fails at the item at which the recognizer is stuck. -/
theorem Program.stuckAt?_of_parse_error {source : String} {e : ParseError}
    (h : Program.parse source = .error e) :
    ∃ x, (Stream.ofString source).stuckAt? (.between 0) = some x ∧ e.At x := by
  obtain ⟨rest, hrun⟩ := Program.parse_eq_error.1 h
  have htracks := Parser.statements_tracks (Stream.ofString source)
  rw [hrun] at htracks
  exact htracks

theorem Stream.kind_ne_endOfFile {text : List Char} {t : Token}
    (h : Item.token t ∈ (ofText text).items) : t.kind ≠ .endOfFile :=
  (Scanner.lexeme_of_mem h).ne_endOfFile

/-- Only the stream itself gives the end of the file. -/
theorem Stream.items_eq_nil_of_ofText {text : List Char} {us : List Token} {rest : Stream}
    {e : Token} (hs : ofText text = rest.prepend us) (he : rest.head = .token e)
    (hek : e.kind = .endOfFile) : rest.items = [] := by
  cases hitems : rest.items with
  | nil => rfl
  | cons x xs =>
    have hx : x = .token e := by rw [← he, Stream.head, hitems]; rfl
    have hmem : Item.token e ∈ (ofText text).items := by
      rw [hs, Stream.prepend, hitems, hx]
      simp
    exact absurd hek (kind_ne_endOfFile hmem)

/-- What is accepted is a script, with no lexical error in it. -/
theorem Program.script_of_parse {source : String} {p : Program} (h : Program.parse source = .ok p) :
    ∃ ts : List Token, (Stream.ofString source).toList = ts.map Item.token ∧
      Grammar.Script (ts.map Token.kind) := by
  obtain ⟨rest, hrun⟩ := Program.parse_eq_ok.1 h
  obtain ⟨e, he, hek, us, hus, hscript⟩ := Parser.statements_derives hrun
  have hnil := Stream.items_eq_nil_of_ofText hus he hek
  refine ⟨us ++ [rest.finish], ?_, ?_⟩
  · rw [hus, Stream.toList_prepend, Stream.toList, hnil, List.map_append]
    rfl
  · rw [List.map_append]
    exact hscript

/-- **The parser accepts exactly the scripts of the grammar**: those whose items are all tokens, of
    kinds that are derived. -/
theorem Program.exists_parse_iff (source : String) :
    (∃ p, Program.parse source = .ok p) ↔
      ∃ ts : List Token, (Stream.ofString source).toList = ts.map Item.token ∧
        Grammar.Script (ts.map Token.kind) := by
  constructor
  · rintro ⟨p, hp⟩
    exact Program.script_of_parse hp
  · rintro ⟨ts, hts, hscript⟩
    cases hp : Program.parse source with
    | ok p => exact ⟨p, rfl⟩
    | error e =>
      obtain ⟨x, hx, -⟩ := Program.stuckAt?_of_parse_error hp
      rw [Stream.stuckAt?, hts, stuckAt?_eq_none (run_of_script hscript 0)] at hx
      cases hx

end StageScript
