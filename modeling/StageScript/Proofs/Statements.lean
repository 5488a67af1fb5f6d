import StageScript.Proofs.Recursion
import StageScript.Proofs.Spelling

set_option autoImplicit false

/-! # Reading statements

What the parsers of statements come to when they succeed, by the way in which they do: one case for
every form of a statement, an argument or a jump, in terms of the parsers of its parts. -/

namespace StageScript.Parser

/-! ## Arguments of commands -/

theorem argumentValue_eq_ok {s rest : Stream} {v : Literal} :
    argumentValue s = .ok v rest ↔
      ∃ t, s.head = .token t ∧ t.kind = v.kind.token ∧ t.text = v.text ∧ rest = s.tail := by
  obtain ⟨kind, text⟩ := v
  cases hhead : s.head with
  | error e =>
    rw [argumentValue, bind_of_error (next_of_error hhead)]
    simp
  | token t =>
    rw [argumentValue, bind_of_ok (next_of_token hhead)]
    simp only [Item.token.injEq, exists_eq_left']
    cases hk : t.kind <;> cases kind <;>
      simp [fail, pure_apply, LiteralKind.token, Literal.number, Literal.string, Literal.word,
        eq_comm]

/-- A value is one token, which is taken. -/
theorem exists_eq_prepend_of_argumentValue {s rest : Stream} {v : Literal}
    (h : argumentValue s = .ok v rest) :
    ∃ u, s = rest.prepend [u] ∧ u.kind = v.kind.token ∧ u.text = v.text := by
  obtain ⟨u, hu, hk, htext, rfl⟩ := argumentValue_eq_ok.1 h
  refine ⟨u, Stream.eq_prepend_of_head hu ?_, hk, htext⟩
  cases hv : v.kind <;> simp [hk, hv, LiteralKind.token]

/-- The tokens are an argument: a value, or a key and its value. -/
inductive ArgumentRead : List Token → String → Literal → Prop where
  | plain {u : Token} {v : Literal} (hk : u.kind = v.kind.token) (htext : u.text = v.text) :
    ArgumentRead [u] Arguments.defaultKey v
  | keyed {word colon u : Token} {v : Literal} (hword : word.kind = .identifier)
    (hcolon : colon.kind = .colon) (hk : u.kind = v.kind.token) (htext : u.text = v.text) :
    ArgumentRead [word, colon, u] word.text v

theorem ArgumentRead.length_lt {us : List Token} {key : String} {v : Literal}
    (h : ArgumentRead us key v) (rest : Stream) :
    rest.items.length < (rest.prepend us).items.length := by
  rw [Stream.length_items_prepend]
  cases h <;> simp

theorem commandArguments_of_stop {a : Arguments} {s : Stream} {t : Token} (h : s.head = .token t)
    (hstop : ∀ l : LiteralKind, t.kind ≠ l.token) : commandArguments a s = .ok a s := by
  rw [commandArguments_eq, bind_of_ok (peek_of_token h)]
  cases hk : t.kind
  case number => exact absurd hk (hstop .number)
  case string => exact absurd hk (hstop .string)
  case identifier => exact absurd hk (hstop .word)
  all_goals rfl

/-- A token is an argument by itself before another one, unless it could be a key. -/
theorem commandArguments_of_plain {a : Arguments} {rest : Stream} {u n : Token} {v : Literal}
    (hk : u.kind = v.kind.token) (htext : u.text = v.text) (hn : rest.head = .token n)
    (hcolon : n.kind = .colon → u.kind ≠ .identifier) :
    commandArguments a (rest.prepend [u]) =
      commandArguments (a.insert Arguments.defaultKey v) rest := by
  have hvalue : argumentValue (rest.prepend [u]) = .ok v rest :=
    argumentValue_eq_ok.2 ⟨u, rfl, hk, htext, rfl⟩
  conv => lhs; rw [commandArguments_eq, bind_of_ok (peek_of_token rfl)]
  obtain ⟨kind, text⟩ := v
  cases kind with
  | number =>
    rw [show u.kind = .number from hk]
    exact bind_of_ok hvalue
  | string =>
    rw [show u.kind = .string from hk]
    exact bind_of_ok hvalue
  | word =>
    have hword : u.kind = .identifier := hk
    have heat : eat .colon rest = .ok false rest :=
      eat_eq_false.2 ⟨n, hn, fun h => hcolon h hword, rfl⟩
    rw [hword]
    refine (bind_of_ok (next_of_token rfl)).trans ((bind_of_ok heat).trans ?_)
    rw [show u.text = text from htext]
    rfl

theorem commandArguments_of_keyed {a : Arguments} {rest : Stream} {word colon u : Token}
    {v : Literal} (hword : word.kind = .identifier) (hcolon : colon.kind = .colon)
    (hk : u.kind = v.kind.token) (htext : u.text = v.text) :
    commandArguments a (rest.prepend [word, colon, u]) =
      commandArguments (a.insert word.text v) rest := by
  have hvalue : argumentValue (rest.prepend [u]) = .ok v rest :=
    argumentValue_eq_ok.2 ⟨u, rfl, hk, htext, rfl⟩
  have heat : eat .colon (rest.prepend [colon, u]) = .ok true (rest.prepend [u]) :=
    eat_eq_true.2 ⟨colon, rfl, hcolon, rfl⟩
  conv => lhs; rw [commandArguments_eq, bind_of_ok (peek_of_token rfl), hword]
  exact (bind_of_ok (next_of_token rfl)).trans ((bind_of_ok heat).trans (bind_of_ok hvalue))

/-- An argument is read before a token that does not make a key of it. -/
theorem ArgumentRead.commandArguments_eq {us : List Token} {key : String} {v : Literal}
    (h : ArgumentRead us key v) {rest : Stream} {n : Token} (hn : rest.head = .token n)
    (hcolon : n.kind = .colon → us.map Token.kind ≠ [.identifier]) (a : Arguments) :
    commandArguments a (rest.prepend us) = commandArguments (a.insert key v) rest := by
  cases h with
  | plain hk htext => exact commandArguments_of_plain hk htext hn (by simpa using hcolon)
  | keyed hword hcolon' hk htext => exact commandArguments_of_keyed hword hcolon' hk htext

theorem exists_head_of_commandArguments {a b : Arguments} {s rest : Stream}
    (h : commandArguments a s = .ok b rest) : ∃ n, s.head = .token n := by
  rw [Parser.commandArguments_eq] at h
  obtain ⟨n, _, hn, -⟩ := bind_eq_ok.1 h
  exact ⟨n, (peek_eq_ok.1 hn).1⟩

/-- An argument is in front, and the others are put in behind it. -/
def TakesArgument (a b : Arguments) (s rest : Stream) : Prop :=
  ∃ us key v mid n, s = mid.prepend us ∧ ArgumentRead us key v ∧ mid.head = .token n ∧
    (n.kind = .colon → us.map Token.kind ≠ [.identifier]) ∧
    commandArguments (a.insert key v) mid = .ok b rest

/-- A number or a string is an argument without a key. -/
theorem takesArgument_of_value {a b : Arguments} {s rest : Stream} {t : Token}
    (hhead : s.head = .token t) (hword : t.kind ≠ .identifier)
    (h : (do
      let value ← argumentValue
      commandArguments (a.insert Arguments.defaultKey value)) s = .ok b rest) :
    TakesArgument a b s rest := by
  obtain ⟨v, next, hv, hmore⟩ := bind_eq_ok.1 h
  obtain ⟨u, heq, hk, htext⟩ := exists_eq_prepend_of_argumentValue hv
  obtain ⟨n, hn⟩ := exists_head_of_commandArguments hmore
  obtain rfl : u = t := by
    rw [heq] at hhead
    exact Item.token.inj hhead
  exact ⟨[u], _, v, next, n, heq, .plain hk htext, hn, fun _ => by simpa using hword, hmore⟩

/-- A word is an argument without a key, unless it is one itself. -/
theorem takesArgument_of_word {a b : Arguments} {s rest : Stream} {t : Token}
    (hhead : s.head = .token t) (hk : t.kind = .identifier)
    (h : (do
      if ← eat .colon then
        let value ← argumentValue
        commandArguments (a.insert t.text value)
      else commandArguments (a.insert Arguments.defaultKey (.word t.text))) s.tail = .ok b rest) :
    TakesArgument a b s rest := by
  have hs := Stream.eq_prepend_of_head hhead (by simp [hk])
  obtain ⟨colon, last, hcolon, hlast⟩ := bind_eq_ok.1 h
  cases colon with
  | true =>
    obtain ⟨c, hc, hck, rfl⟩ := eat_eq_true.1 hcolon
    obtain ⟨v, next, hv, hmore⟩ := bind_eq_ok.1 hlast
    obtain ⟨u, hu, huk, htext⟩ := exists_eq_prepend_of_argumentValue hv
    obtain ⟨n, hn⟩ := exists_head_of_commandArguments hmore
    refine ⟨[t, c, u], _, v, next, n, ?_, .keyed hk hck huk htext, hn, by simp, hmore⟩
    rw [hs, Stream.eq_prepend_of_head hc (by simp [hck]), hu]
    simp
  | false =>
    obtain ⟨n, hn, hne, rfl⟩ := eat_eq_false.1 hcolon
    exact ⟨[t], _, .word t.text, s.tail, n, hs, .plain hk rfl, hn, fun h => absurd h hne, hlast⟩

/-- Arguments end before a token that is no value, or they go on behind an argument. -/
theorem commandArguments_eq_ok {a b : Arguments} {s rest : Stream}
    (h : commandArguments a s = .ok b rest) :
    (b = a ∧ rest = s ∧ ∃ n, s.head = .token n ∧ ∀ l : LiteralKind, n.kind ≠ l.token) ∨
      TakesArgument a b s rest := by
  rw [Parser.commandArguments_eq] at h
  obtain ⟨t, mid, ht, hmid⟩ := bind_eq_ok.1 h
  obtain ⟨hhead, rfl⟩ := peek_eq_ok.1 ht
  cases hk : t.kind
  case identifier =>
    rw [hk] at hmid
    obtain ⟨word, tail, hword, htail⟩ := bind_eq_ok.1 hmid
    obtain ⟨hwordhead, rfl⟩ := next_eq_ok.1 hword
    obtain rfl := Item.token.inj (hhead.symm.trans hwordhead)
    exact .inr (takesArgument_of_word hhead hk htail)
  case number =>
    rw [hk] at hmid
    exact .inr (takesArgument_of_value hhead (by simp [hk]) hmid)
  case string =>
    rw [hk] at hmid
    exact .inr (takesArgument_of_value hhead (by simp [hk]) hmid)
  all_goals
    rw [hk] at hmid
    obtain ⟨rfl, rfl⟩ := pure_eq_ok.1 hmid
    exact .inl ⟨rfl, rfl, t, hhead, fun l hl => by cases l <;> simp [hk, LiteralKind.token] at hl⟩

/-! ## Jumps -/

/-- Without an arrow nothing is taken for a jump. -/
theorem jump_eq_ok {s rest : Stream} {label : Option String} :
    jump s = .ok label rest ↔
      (∃ t, s.head = .token t ∧ t.kind ≠ .arrow ∧ label = none ∧ rest = s) ∨
      ∃ arrow word, s.head = .token arrow ∧ arrow.kind = .arrow ∧ s.tail.head = .token word ∧
        word.kind = .identifier ∧ terminator s.tail.tail = .ok () rest ∧
        label = some word.text := by
  cases hhead : s.head with
  | error e =>
    rw [jump, bind_of_error (eat_of_error hhead)]
    simp
  | token t =>
    by_cases hk : t.kind = .arrow
    · rw [jump, bind_of_ok (eat_eq_true.2 ⟨t, hhead, hk, rfl⟩)]
      constructor
      · intro h
        obtain ⟨word, mid, hword, hmid⟩ := bind_eq_ok.1 h
        obtain ⟨hwordhead, hwordk, rfl⟩ := expect_eq_ok.1 hword
        obtain ⟨_, last, hlast, hend⟩ := bind_eq_ok.1 hmid
        obtain ⟨rfl, rfl⟩ := pure_eq_ok.1 hend
        exact .inr ⟨t, word, rfl, hk, hwordhead, hwordk, hlast, rfl⟩
      · rintro (⟨u, hu, hne, -⟩ | ⟨arrow, word, -, -, hword, hwordk, hend, rfl⟩)
        · cases hu
          exact absurd hk hne
        · exact (bind_of_ok (expect_eq_ok.2 ⟨hword, hwordk, rfl⟩)).trans (bind_of_ok hend)
    · rw [jump, bind_of_ok (eat_eq_false.2 ⟨t, hhead, hk, rfl⟩)]
      constructor
      · intro h
        obtain ⟨rfl, rfl⟩ := pure_eq_ok.1 h
        exact .inl ⟨t, rfl, hk, rfl, rfl⟩
      · rintro (⟨u, -, -, rfl, rfl⟩ | ⟨arrow, -, harrow, harrowk, -⟩)
        · rfl
        · cases harrow
          exact absurd harrowk hk

/-! ## Statements -/

/-- How a statement is read off a stream, by its form. -/
inductive StatementRead (s rest : Stream) : Statement → Prop where
  | dialogue {t : Token} (hhead : s.head = .token t) (hk : t.kind = .string)
    (hend : terminator s.tail = .ok () rest) : StatementRead s rest (.dialogue t.text t.line)
  | command {t : Token} {a : Arguments} {mid : Stream} (hhead : s.head = .token t)
    (hk : t.kind = .identifier) (ha : commandArguments .empty s.tail = .ok a mid)
    (hend : terminator mid = .ok () rest) : StatementRead s rest (.command t.text a t.line)
  | conditional {t : Token} {c : Tree} {behind start done last : Stream} {body : Statement}
    {label : Option String} (hhead : s.head = .token t) (hk : t.kind = .guardMark)
    (hc : treeAt 0 s.tail = .ok c behind) (hstart : skipNewlines behind = .ok () start)
    (hbody : statement start = .ok body done) (hlast : skipNewlines done = .ok () last)
    (hlabel : jump last = .ok label rest) :
    StatementRead s rest (.conditional (.ofTree c) body label t.line)

theorem statement_eq_ok {s rest : Stream} {st : Statement} :
    statement s = .ok st rest ↔ StatementRead s rest st := by
  constructor
  · intro h
    rw [statement_eq] at h
    obtain ⟨t, mid, ht, hmid⟩ := bind_eq_ok.1 h
    obtain ⟨hhead, rfl⟩ := next_eq_ok.1 ht
    cases hk : t.kind
    case string =>
      rw [hk] at hmid
      obtain ⟨_, last, hlast, hend⟩ := bind_eq_ok.1 hmid
      obtain ⟨rfl, rfl⟩ := pure_eq_ok.1 hend
      exact .dialogue hhead hk hlast
    case identifier =>
      rw [hk] at hmid
      obtain ⟨a, close, ha, hclose⟩ := bind_eq_ok.1 hmid
      obtain ⟨_, last, hlast, hend⟩ := bind_eq_ok.1 hclose
      obtain ⟨rfl, rfl⟩ := pure_eq_ok.1 hend
      exact .command hhead hk ha hlast
    case guardMark =>
      rw [hk] at hmid
      obtain ⟨c, behind, hc, hbehind⟩ := bind_eq_ok.1 hmid
      obtain ⟨_, start, hstart, hbody⟩ := bind_eq_ok.1 hbehind
      obtain ⟨body, done, hst, hdone⟩ := bind_eq_ok.1 hbody
      obtain ⟨_, open', hopen, hjump⟩ := bind_eq_ok.1 hdone
      obtain ⟨label, last, hlabel, hend⟩ := bind_eq_ok.1 hjump
      obtain ⟨rfl, rfl⟩ := pure_eq_ok.1 hend
      exact .conditional hhead hk hc hstart hst hopen hlabel
    all_goals
      rw [hk] at hmid
      exact absurd hmid fail_ne_ok
  · intro h
    rw [statement_eq]
    cases h with
    | dialogue hhead hk hend =>
      rw [bind_of_ok (next_of_token hhead), hk]
      exact bind_of_ok hend
    | command hhead hk ha hend =>
      rw [bind_of_ok (next_of_token hhead), hk]
      exact (bind_of_ok ha).trans (bind_of_ok hend)
    | conditional hhead hk hc hstart hbody hlast hlabel =>
      rw [bind_of_ok (next_of_token hhead), hk]
      exact (bind_of_ok hc).trans ((bind_of_ok hstart).trans ((bind_of_ok hbody).trans
        ((bind_of_ok hlast).trans (bind_of_ok hlabel))))

/-- Newlines are passed over, the end of the file ends the statements, and anything else is one. -/
theorem statements_eq_ok {s rest : Stream} {sts : List Statement} :
    statements s = .ok sts rest ↔ ∃ t, s.head = .token t ∧
      (t.kind = .newline ∧ statements s.tail = .ok sts rest ∨
        t.kind = .endOfFile ∧ sts = [] ∧ rest = s ∨
        t.kind ≠ .newline ∧ t.kind ≠ .endOfFile ∧ ∃ st mid more, statement s = .ok st mid ∧
          statements mid = .ok more rest ∧ sts = st :: more) := by
  constructor
  · intro h
    rw [statements_eq] at h
    obtain ⟨t, mid, ht, hmid⟩ := bind_eq_ok.1 h
    obtain ⟨hhead, rfl⟩ := peek_eq_ok.1 ht
    refine ⟨t, hhead, ?_⟩
    cases hk : t.kind
    case newline =>
      rw [hk] at hmid
      obtain ⟨u, tail, hu, htail⟩ := bind_eq_ok.1 hmid
      obtain ⟨-, rfl⟩ := next_eq_ok.1 hu
      exact .inl ⟨rfl, htail⟩
    case endOfFile =>
      rw [hk] at hmid
      obtain ⟨rfl, rfl⟩ := pure_eq_ok.1 hmid
      exact .inr (.inl ⟨rfl, rfl, rfl⟩)
    all_goals
      rw [hk] at hmid
      obtain ⟨st, next, hst, hnext⟩ := bind_eq_ok.1 hmid
      obtain ⟨more, last, hmore, hlast⟩ := bind_eq_ok.1 hnext
      obtain ⟨rfl, rfl⟩ := pure_eq_ok.1 hlast
      exact .inr (.inr ⟨by simp, by simp, st, next, more, hst, hmore, rfl⟩)
  · rintro ⟨t, hhead, ⟨hk, htail⟩ | ⟨hk, rfl, rfl⟩ |
      ⟨hnewline, hend, st, mid, more, hst, hmore, rfl⟩⟩
    · rw [statements_eq, bind_of_ok (peek_of_token hhead), hk]
      exact (bind_of_ok (next_of_token hhead)).trans htail
    · rw [statements_eq, bind_of_ok (peek_of_token hhead), hk]
      rfl
    · rw [statements_eq, bind_of_ok (peek_of_token hhead)]
      cases hk : t.kind
      case newline => exact absurd hk hnewline
      case endOfFile => exact absurd hk hend
      all_goals exact (bind_of_ok hst).trans (bind_of_ok hmore)

end StageScript.Parser
