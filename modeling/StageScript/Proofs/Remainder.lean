import StageScript.Proofs.Acceptance
import StageScript.Proofs.Calls

set_option autoImplicit false

/-! # What a parser leaves

A parser holds nothing but its stream: an item that has only been looked at is still in it. Here
every parser is followed into its errors. What it leaves is a suffix of what it was given; a success
has taken tokens only, and an error leaves everything behind the item that it reports, often that
item as well (`Reply.Leaves`). So one parser can be asked again and again, whatever the answers, and
gets to the end of the file. A reader that keeps what has been looked at answers the same calls, and
has the same left (`Stream.exists_calls_after`). Main statement: `Stream.leftover`. -/

namespace StageScript

/-! ## What a reply leaves -/

/-- A success is behind tokens. An error is at the item behind tokens, which is left or taken. In
    either case `least` items are gone at least; the end of the file may count as one of them. -/
def Reply.Leaves {α : Type} (r : Reply α) (least : Nat) (s : Stream) : Prop :=
  match r with
  | .ok _ rest => ∃ ts, s = rest.prepend ts ∧ least ≤ ts.length
  | .error e rest => ∃ ts start, s = start.prepend ts ∧ e.At start.head ∧
      (rest = start ∧ least ≤ ts.length ∨ rest = start.tail ∧ least ≤ ts.length + 1)

namespace Reply.Leaves

variable {α : Type} {r : Reply α} {j k : Nat} {s : Stream}

theorem weaken (h : r.Leaves k s) (hj : j ≤ k) : r.Leaves j s := by
  cases r with
  | ok a rest =>
    obtain ⟨ts, hs, hk⟩ := h
    exact ⟨ts, hs, hj.trans hk⟩
  | error e rest =>
    obtain ⟨ts, start, hs, he, ⟨hrest, hk⟩ | ⟨hrest, hk⟩⟩ := h
    · exact ⟨ts, start, hs, he, .inl ⟨hrest, hj.trans hk⟩⟩
    · exact ⟨ts, start, hs, he, .inr ⟨hrest, hj.trans hk⟩⟩

/-- Tokens that were taken before are gone as well. -/
theorem prepend {ts : List Token} (h : r.Leaves k s) :
    r.Leaves (ts.length + k) (s.prepend ts) := by
  cases r with
  | ok a rest =>
    obtain ⟨us, rfl, hk⟩ := h
    exact ⟨ts ++ us, Stream.prepend_prepend ts us rest, by rw [List.length_append]; omega⟩
  | error e rest =>
    obtain ⟨us, start, rfl, he, hrest⟩ := h
    refine ⟨ts ++ us, start, Stream.prepend_prepend ts us start, he, ?_⟩
    rw [List.length_append]
    rcases hrest with ⟨rfl, hk⟩ | ⟨rfl, hk⟩
    · exact .inl ⟨rfl, by omega⟩
    · exact .inr ⟨rfl, by omega⟩

/-- What comes after a token leaves what the token and the rest of the reading leave. -/
theorem of_tail {t : Token} (hhead : s.head = .token t) (ht : t.kind ≠ .endOfFile)
    (h : r.Leaves k s.tail) : r.Leaves (k + 1) s := by
  rw [Stream.eq_prepend_of_head hhead ht, Nat.add_comm]
  exact h.prepend

end Reply.Leaves

namespace Parser

variable {α β : Type} {k : Nat} {s : Stream}

/-! ## One parser after the other -/

theorem leaves_pure (a : α) : ((pure a : Parser α) s).Leaves 0 s :=
  ⟨[], rfl, Nat.le_refl _⟩

theorem leaves_bind {p : Parser α} {f : α → Parser β} (hp : (p s).Leaves k s)
    (hf : ∀ a rest, p s = .ok a rest → (f a rest).Leaves 0 rest) : ((p >>= f) s).Leaves k s := by
  cases h : p s with
  | ok a rest =>
    rw [bind_of_ok h]
    rw [h] at hp
    obtain ⟨ts, rfl, hk⟩ := hp
    exact (hf a rest h).prepend.weaken (hk.trans (Nat.le_add_right _ _))
  | error e rest =>
    rw [bind_of_error h]
    rw [h] at hp
    exact hp

/-- A failure at a token that has only been looked at leaves it. -/
theorem leaves_fail {kind : ParseErrorKind} {t : Token} (hhead : s.head = .token t)
    (hkind : ∀ l, kind ≠ .lexical l) : ((fail kind t : Parser α) s).Leaves 0 s := by
  refine ⟨[], s, rfl, ?_, .inl ⟨rfl, Nat.le_refl _⟩⟩
  rw [hhead]
  exact .of_token hkind

/-- A failure at a token that was taken leaves what is behind it. -/
theorem leaves_fail_tail {kind : ParseErrorKind} {t : Token} (hhead : s.head = .token t)
    (hkind : ∀ l, kind ≠ .lexical l) : ((fail kind t : Parser α) s.tail).Leaves 1 s := by
  refine ⟨[], s, rfl, ?_, .inr ⟨rfl, Nat.le_refl _⟩⟩
  rw [hhead]
  exact .of_token hkind

theorem leaves_peek_bind {f : Token → Parser β}
    (hf : ∀ t, s.head = .token t → (f t s).Leaves 0 s) : ((peek >>= f) s).Leaves 0 s := by
  cases hhead : s.head with
  | token t =>
    rw [bind_of_ok (peek_of_token hhead)]
    exact hf t hhead
  | error e =>
    rw [bind_of_error (peek_of_error hhead)]
    exact ⟨[], s, rfl, hhead ▸ .of_lexical e, .inl ⟨rfl, Nat.le_refl _⟩⟩

/-- Taking an item takes it even if it is a lexical error. -/
theorem leaves_next_bind {f : Token → Parser β}
    (hf : ∀ t, s.head = .token t → (f t s.tail).Leaves 1 s) : ((next >>= f) s).Leaves 1 s := by
  cases hhead : s.head with
  | token t =>
    rw [bind_of_ok (next_of_token hhead)]
    exact hf t hhead
  | error e =>
    rw [bind_of_error (next_of_error hhead)]
    exact ⟨[], s, rfl, hhead ▸ .of_lexical e, .inr ⟨rfl, Nat.le_refl _⟩⟩

/-! ## Single items -/

theorem leaves_eat {kind : TokenKind} (hk : kind ≠ .endOfFile) (s : Stream) :
    (eat kind s).Leaves 0 s := by
  refine leaves_peek_bind fun t hhead => ?_
  split
  · next ht =>
    rw [bind_of_ok (next_of_token hhead)]
    exact (Reply.Leaves.of_tail hhead (ht ▸ hk) (leaves_pure true)).weaken (Nat.zero_le _)
  · exact leaves_pure false

theorem leaves_expect {kind : TokenKind} (hk : kind ≠ .endOfFile) (s : Stream) :
    (expect kind s).Leaves 1 s := by
  refine leaves_next_bind fun t hhead => ?_
  split
  · next ht => exact .of_tail hhead (ht ▸ hk) (leaves_pure t)
  · exact leaves_fail_tail hhead (by simp)

theorem leaves_skipNewlines (s : Stream) : (skipNewlines s).Leaves 0 s := by
  obtain ⟨ns, -, hs, -⟩ := s.exists_newlines
  cases hhead : s.dropNewlines.head with
  | token t =>
    rw [skipNewlines_of_token hhead]
    exact ⟨ns, hs, Nat.zero_le _⟩
  | error e =>
    rw [skipNewlines_of_error hhead]
    exact ⟨ns, s.dropNewlines, hs, hhead ▸ .of_lexical e, .inl ⟨rfl, Nat.zero_le _⟩⟩

theorem leaves_terminator (s : Stream) : (terminator s).Leaves 0 s := by
  refine leaves_peek_bind fun t hhead => ?_
  cases hk : t.kind
  case endOfFile => exact leaves_pure ()
  case newline =>
    dsimp only
    rw [bind_of_ok (next_of_token hhead)]
    exact (Reply.Leaves.of_tail hhead (by simp [hk]) (leaves_pure ())).weaken (Nat.zero_le _)
  all_goals exact leaves_fail hhead (by simp)

theorem leaves_argumentKey (s : Stream) : (argumentKey s).Leaves 0 s := by
  cases h : argumentKey s with
  | ok key rest =>
    rcases argumentKey_eq_ok h with ⟨-, rfl⟩ | ⟨word, colon, -, -, -, rfl⟩
    · exact ⟨[], rfl, Nat.le_refl _⟩
    · exact ⟨[word, colon], rfl, Nat.zero_le _⟩
  | error e rest => exact absurd h argumentKey_ne_error

/-! ## Expressions -/

mutual

theorem leaves_treeAt (power : Nat) (s : Stream) : (treeAt power s).Leaves 1 s := by
  rw [treeAt_eq]
  refine leaves_bind (leaves_operand s) fun lhs rest hlhs => ?_
  have hlt := Parsers.advance_whole.operand s lhs rest hlhs
  exact leaves_operators power lhs rest
termination_by 2 * s.items.length + 2

theorem leaves_operand (s : Stream) : (operand s).Leaves 1 s := by
  rw [operand_eq]
  refine leaves_next_bind fun t hhead => ?_
  cases hk : t.kind
  case number => exact .of_tail hhead (by simp [hk]) (leaves_pure _)
  case string => exact .of_tail hhead (by simp [hk]) (leaves_pure _)
  case identifier =>
    have hlt := Stream.length_tail_of_head hhead (by simp [hk])
    exact .of_tail hhead (by simp [hk]) (leaves_wordOperand t s.tail)
  case leftParen =>
    have hlt := Stream.length_tail_of_head hhead (by simp [hk])
    refine .of_tail hhead (by simp [hk]) (leaves_bind ((leaves_treeAt 0 s.tail).weaken
      (Nat.zero_le _)) fun inner close _ => ?_)
    exact leaves_bind ((leaves_expect (by simp) close).weaken (Nat.zero_le _))
      fun _ _ _ => leaves_pure _
  all_goals exact leaves_fail_tail hhead (by simp)
termination_by 2 * s.items.length + 1

theorem leaves_wordOperand (word : Token) (s : Stream) : (wordOperand word s).Leaves 0 s := by
  rw [wordOperand_eq]
  refine leaves_bind (leaves_eat (by simp) s) fun taken rest htaken => ?_
  cases taken with
  | true =>
    obtain ⟨t, hhead, hk, rfl⟩ := eat_eq_true.1 htaken
    have hlt := Stream.length_tail_of_head hhead (by simp [hk])
    exact leaves_bind (leaves_callArguments s.tail) fun _ _ _ => leaves_pure _
  | false => exact leaves_pure _
termination_by 2 * s.items.length + 2

theorem leaves_callArguments (s : Stream) : (callArguments s).Leaves 0 s := by
  rw [callArguments_eq]
  refine leaves_peek_bind fun t hhead => ?_
  have hargument : ((do
      let key ← argumentKey
      let value ← treeAt 0
      let rest ← callArguments
      return TreeArguments.cons key value rest : Parser TreeArguments) s).Leaves 0 s := by
    refine leaves_bind (leaves_argumentKey s) fun key start hkey => ?_
    have hle := argumentKey_consumes s key start hkey
    refine leaves_bind ((leaves_treeAt 0 start).weaken (Nat.zero_le _)) fun value more hvalue => ?_
    have hlt := Parsers.advance_whole.tree _ _ value more hvalue
    exact leaves_bind (leaves_callArguments more) fun _ _ _ => leaves_pure _
  cases hk : t.kind
  case rightParen =>
    dsimp only
    rw [bind_of_ok (next_of_token hhead)]
    exact (Reply.Leaves.of_tail hhead (by simp [hk]) (leaves_pure _)).weaken (Nat.zero_le _)
  case endOfFile => exact leaves_fail hhead (by simp)
  all_goals exact hargument
termination_by 2 * s.items.length + 3

theorem leaves_operators (power : Nat) (lhs : Tree) (s : Stream) :
    (operators power lhs s).Leaves 0 s := by
  rw [operators_eq]
  refine leaves_peek_bind fun t hhead => ?_
  cases ho : Operator.ofToken? t.kind with
  | none => exact leaves_pure lhs
  | some o =>
    dsimp only
    split
    · exact leaves_pure lhs
    · have hne : t.kind ≠ .endOfFile := fun hk => by rw [hk] at ho; cases ho
      have hlt := Stream.length_tail_of_head hhead hne
      rw [bind_of_ok (next_of_token hhead)]
      refine (Reply.Leaves.of_tail (k := 0) hhead hne ?_).weaken (Nat.zero_le _)
      refine leaves_bind ((leaves_treeAt o.powers.2 s.tail).weaken (Nat.zero_le _))
        fun rhs more hrhs => ?_
      have hlt' := Parsers.advance_whole.tree _ _ rhs more hrhs
      exact leaves_operators power (o.join lhs rhs) more
termination_by 2 * s.items.length + 1

end

/-! ## Statements -/

theorem leaves_argumentValue (s : Stream) : (argumentValue s).Leaves 1 s := by
  refine leaves_next_bind fun t hhead => ?_
  cases hk : t.kind
  case number => exact .of_tail hhead (by simp [hk]) (leaves_pure _)
  case string => exact .of_tail hhead (by simp [hk]) (leaves_pure _)
  case identifier => exact .of_tail hhead (by simp [hk]) (leaves_pure _)
  all_goals exact leaves_fail_tail hhead (by simp)

theorem leaves_commandArguments (a : Arguments) (s : Stream) :
    (commandArguments a s).Leaves 0 s := by
  rw [commandArguments_eq]
  refine leaves_peek_bind fun t hhead => ?_
  have hvalue : ∀ (start : Stream) (key : String), start.items.length ≤ s.items.length →
      ((do
        let value ← argumentValue
        commandArguments (a.insert key value) : Parser Arguments) start).Leaves 0 start := by
    intro start key hle
    refine leaves_bind ((leaves_argumentValue start).weaken (Nat.zero_le _))
      fun value more hmore => ?_
    have hlt := Parsers.argumentValue_consumes _ value more hmore
    exact leaves_commandArguments _ more
  cases hk : t.kind
  case identifier =>
    have hlt := Stream.length_tail_of_head hhead (by simp [hk])
    dsimp only
    rw [bind_of_ok (next_of_token hhead)]
    refine (Reply.Leaves.of_tail (k := 0) hhead (by simp [hk]) ?_).weaken (Nat.zero_le _)
    refine leaves_bind (leaves_eat (by simp) s.tail) fun taken start htaken => ?_
    cases taken with
    | true =>
      obtain ⟨u, -, -, rfl⟩ := eat_eq_true.1 htaken
      exact hvalue _ _ (by have := s.tail.length_tail_le; omega)
    | false =>
      obtain ⟨u, -, -, rfl⟩ := eat_eq_false.1 htaken
      exact leaves_commandArguments _ s.tail
  case number => exact hvalue s _ (Nat.le_refl _)
  case string => exact hvalue s _ (Nat.le_refl _)
  all_goals exact leaves_pure a
termination_by s.items.length

theorem leaves_jump (s : Stream) : (jump s).Leaves 0 s := by
  refine leaves_bind (leaves_eat (by simp) s) fun taken rest _ => ?_
  split
  · exact leaves_bind ((leaves_expect (by simp) rest).weaken (Nat.zero_le _)) fun label last _ =>
      leaves_bind (leaves_terminator last) fun _ _ _ => leaves_pure _
  · exact leaves_pure none

theorem leaves_statement (s : Stream) : (statement s).Leaves 1 s := by
  rw [statement_eq]
  refine leaves_next_bind fun first hhead => ?_
  cases hk : first.kind
  case string =>
    exact .of_tail hhead (by simp [hk]) (leaves_bind (leaves_terminator s.tail)
      fun _ _ _ => leaves_pure _)
  case identifier =>
    exact .of_tail hhead (by simp [hk]) (leaves_bind (leaves_commandArguments _ s.tail)
      fun a close _ => leaves_bind (leaves_terminator close) fun _ _ _ => leaves_pure _)
  case guardMark =>
    have hlt := Stream.length_tail_of_head hhead (by simp [hk])
    refine .of_tail hhead (by simp [hk]) (leaves_bind ((leaves_treeAt 0 s.tail).weaken
      (Nat.zero_le _)) fun condition behind hcondition => ?_)
    have hcondition' := Parsers.advance_whole.tree _ _ condition behind hcondition
    refine leaves_bind (leaves_skipNewlines behind) fun _ start hstart => ?_
    have hle := Consumes.skipNewlines _ _ start hstart
    refine leaves_bind ((leaves_statement start).weaken (Nat.zero_le _)) fun body done _ => ?_
    exact leaves_bind (leaves_skipNewlines done) fun _ open' _ =>
      leaves_bind (leaves_jump open') fun _ _ _ => leaves_pure _
  all_goals exact leaves_fail_tail hhead (by simp)
termination_by s.items.length

theorem leaves_statements (s : Stream) : (statements s).Leaves 0 s := by
  rw [statements_eq]
  refine leaves_peek_bind fun first hhead => ?_
  have hstatement : ((do
      let st ← statement
      let more ← statements
      return st :: more : Parser (List Statement)) s).Leaves 0 s := by
    refine leaves_bind ((leaves_statement s).weaken (Nat.zero_le _)) fun st next hst => ?_
    have hlt := Parsers.advance_whole.statement _ st next hst
    exact leaves_bind (leaves_statements next) fun _ _ _ => leaves_pure _
  cases hk : first.kind
  case newline =>
    have hlt := Stream.length_tail_of_head hhead (by simp [hk])
    dsimp only
    rw [bind_of_ok (next_of_token hhead)]
    exact (Reply.Leaves.of_tail hhead (by simp [hk]) (leaves_statements s.tail)).weaken
      (Nat.zero_le _)
  case endOfFile => exact leaves_pure []
  all_goals exact hstatement
termination_by s.items.length

end Parser

/-! ## One request after the other -/

namespace Stream

/-- The stream is what the other is behind some items. -/
def IsRestOf (rest s : Stream) : Prop := ∃ xs, s = { rest with items := xs ++ rest.items }

namespace IsRestOf

variable {s t u : Stream}

theorem refl (s : Stream) : s.IsRestOf s := ⟨[], rfl⟩

theorem trans (h : t.IsRestOf s) (h' : u.IsRestOf t) : u.IsRestOf s := by
  obtain ⟨xs, rfl⟩ := h
  obtain ⟨ys, rfl⟩ := h'
  exact ⟨xs ++ ys, by simp⟩

theorem tail (s : Stream) : s.tail.IsRestOf s := by
  obtain ⟨items, stop, line⟩ := s
  cases items with
  | nil => exact refl _
  | cons x xs => exact ⟨[x], rfl⟩

theorem prepend (ts : List Token) (s : Stream) : s.IsRestOf (s.prepend ts) :=
  ⟨ts.map Item.token, rfl⟩

theorem toList_suffix (h : t.IsRestOf s) : t.toList <:+ s.toList := by
  obtain ⟨xs, rfl⟩ := h
  exact ⟨xs, by simp [toList, finish]⟩

theorem items_suffix (h : t.IsRestOf s) : t.items <:+ s.items := by
  obtain ⟨xs, rfl⟩ := h
  exact List.suffix_append xs t.items

end IsRestOf

/-- The next item is the end of the file. -/
def AtEnd (s : Stream) : Prop := s.head.kind? = some .endOfFile

end Stream

namespace Reply.Leaves

variable {α : Type} {r : Reply α} {k : Nat} {s : Stream}

theorem isRestOf (h : r.Leaves k s) : r.rest.IsRestOf s := by
  cases r with
  | ok a rest =>
    obtain ⟨ts, rfl, -⟩ := h
    exact .prepend ts rest
  | error e rest =>
    obtain ⟨ts, start, rfl, -, ⟨rfl, -⟩ | ⟨rfl, -⟩⟩ := h
    · exact .prepend ts rest
    · exact (Stream.IsRestOf.prepend ts start).trans (.tail start)

theorem isRestOf_of_ok {p : Parser α} {a : α} {rest : Stream} (hp : (p s).Leaves k s)
    (h : p s = .ok a rest) : rest.IsRestOf s := by
  have hrest := hp.isRestOf
  rwa [h] at hrest

/-- What is gone is gone, unless there was nothing but the end of the file. -/
theorem length_lt (h : r.Leaves 1 s) (hs : s.items ≠ []) :
    r.rest.items.length < s.items.length := by
  cases r with
  | ok a rest =>
    obtain ⟨ts, rfl, hk⟩ := h
    rw [Stream.length_items_prepend]
    change rest.items.length < _
    omega
  | error e rest =>
    obtain ⟨ts, start, rfl, -, hrest⟩ := h
    rw [Stream.length_items_prepend]
    change rest.items.length < _
    rcases hrest with ⟨rfl, hk⟩ | ⟨rfl, -⟩
    · omega
    · cases hitems : start.items with
      | nil =>
        have hts : ts ≠ [] := by
          rintro rfl
          exact hs hitems
        have := List.length_pos_iff.2 hts
        simp only [Stream.tail, hitems, List.tail_nil, List.length_nil]
        omega
      | cons x xs =>
        simp only [Stream.tail, hitems, List.tail_cons, List.length_cons]
        omega

end Reply.Leaves

/-- What can be asked of a parser. -/
inductive Request where
  | expression
  | statement
  | program
  deriving DecidableEq

namespace Request

/-- The reply to a request, without its value. -/
def reply : Request → Parser Unit
  | expression => do let _ ← Parser.expression
  | statement => do let _ ← Parser.statement
  | program => do let _ ← Parser.program

/-- How many items are gone after a request at least. -/
def least : Request → Nat
  | expression => 1
  | statement => 1
  | program => 0

theorem leaves_reply (q : Request) (s : Stream) : (q.reply s).Leaves q.least s := by
  cases q with
  | expression =>
    have htree : (Parser.expression s).Leaves 1 s := by
      rw [Parser.expression_eq]
      exact Parser.leaves_bind (Parser.leaves_treeAt 0 s) fun _ _ _ => Parser.leaves_pure _
    exact Parser.leaves_bind htree fun _ _ _ => Parser.leaves_pure ()
  | statement =>
    exact Parser.leaves_bind (Parser.leaves_statement s) fun _ _ _ => Parser.leaves_pure ()
  | program =>
    have hprogram : (Parser.program s).Leaves 0 s := by
      rw [Parser.program_eq]
      exact Parser.leaves_bind (Parser.leaves_statements s) fun _ _ _ => Parser.leaves_pure _
    exact Parser.leaves_bind hprogram fun _ _ _ => Parser.leaves_pure ()

theorem asks_reply (q : Request) (s : Stream) : q.reply.Asks s := by
  cases q with
  | expression =>
    exact Parser.asks_bind (Parser.asks_expression s) fun _ rest _ => Parser.asks_pure () rest
  | statement =>
    exact Parser.asks_bind (Parser.asks_statement s) fun _ rest _ => Parser.asks_pure () rest
  | program =>
    exact Parser.asks_bind (Parser.asks_program s) fun _ rest _ => Parser.asks_pure () rest

end Request

namespace Stream

/-- The stream that is left after some requests, whatever the replies are. -/
def after (s : Stream) (requests : List Request) : Stream :=
  requests.foldl (fun s q => (q.reply s).rest) s

theorem isRestOf_after (s : Stream) (requests : List Request) : (s.after requests).IsRestOf s := by
  induction requests generalizing s with
  | nil => exact .refl s
  | cons q requests ih => exact (q.leaves_reply s).isRestOf.trans (ih _)

/-- What requests leave is what a reader has left after the calls that they make. -/
theorem exists_calls_after {r : Reader} {s : Stream} (h : r.Shows s) (requests : List Request) :
    ∃ calls, (r.after calls).Shows (s.after requests) := by
  induction requests generalizing r s with
  | nil => exact ⟨[], h⟩
  | cons q requests ih =>
    obtain ⟨calls, hcalls⟩ := (q.asks_reply s).reader h
    obtain ⟨more, hmore⟩ := ih hcalls
    exact ⟨calls ++ more, r.after_append calls more ▸ hmore⟩

/-- Every request but one for a program takes an item, so that enough of them take all. -/
theorem items_after_eq_nil {s : Stream} {requests : List Request}
    (hprogram : ∀ q ∈ requests, q ≠ .program) (hlength : s.items.length ≤ requests.length) :
    (s.after requests).items = [] := by
  induction requests generalizing s with
  | nil => exact List.length_eq_zero_iff.1 (Nat.le_zero.1 hlength)
  | cons q requests ih =>
    obtain ⟨hq, hrequests⟩ := List.forall_mem_cons.1 hprogram
    refine ih hrequests ?_
    have hleaves := q.leaves_reply s
    by_cases hs : s.items = []
    · have hle := hleaves.isRestOf.items_suffix.length_le
      rw [hs] at hle
      exact hle.trans (Nat.zero_le _)
    · have hleast : q.least = 1 := by
        cases q with
        | expression => rfl
        | statement => rfl
        | program => exact absurd rfl hq
      have hlt := (hleast ▸ hleaves).length_lt hs
      rw [List.length_cons] at hlength
      exact Nat.le_of_lt_succ (hlt.trans_le hlength)

/-- Only at its end does a stream of a text give the end of the file. -/
theorem atEnd_iff {text : List Char} {s : Stream} (h : s.IsRestOf (ofText text)) :
    s.AtEnd ↔ s.items = [] := by
  constructor
  · intro hend
    cases hitems : s.items with
    | nil => rfl
    | cons x xs =>
      have hhead : s.head = x := by rw [head, hitems]; rfl
      have hmem : x ∈ (ofText text).items := h.items_suffix.subset (by rw [hitems]; simp)
      cases x with
      | error e =>
        rw [AtEnd, hhead] at hend
        cases hend
      | token t =>
        rw [AtEnd, hhead] at hend
        exact absurd (Option.some.inj hend) (kind_ne_endOfFile hmem)
  · intro hitems
    rw [AtEnd, (head_of_items_nil hitems).1]
    rfl

end Stream

/-! ## What is never lost -/

/-- How the reply to a request and the stream that it leaves belong together. -/
structure Request.Served (q : Request) (s : Stream) : Prop where
  /-- The request looks at items and takes them, and depends on nothing else. -/
  asked : q.reply.Asks s
  /-- What is left is the end of what there was. -/
  suffix : (q.reply s).rest.toList <:+ s.toList
  /-- A success has taken tokens and no lexical error. -/
  taken : ∀ rest, q.reply s = .ok () rest →
    ∃ ts : List Token, s.toList = ts.map Item.token ++ rest.toList
  /-- A failure reports the item behind tokens and leaves all that follows it. -/
  reported : ∀ e rest, q.reply s = .error e rest →
    ∃ (ts : List Token) (x : Item) (behind : List Item),
      s.toList = ts.map Item.token ++ x :: behind ∧ e.At x ∧
        (rest.toList = x :: behind ∨ rest.toList = behind)
  /-- An expression or a statement takes an item, if there is one before the end of the file. -/
  advances : q ≠ .program → ¬s.AtEnd → (q.reply s).rest.items.length < s.items.length

theorem Request.served (q : Request) {text : List Char} {s : Stream}
    (h : s.IsRestOf (.ofText text)) : q.Served s := by
  have hleaves := q.leaves_reply s
  refine ⟨q.asks_reply s, hleaves.isRestOf.toList_suffix, fun rest hrest => ?_,
    fun e rest hrest => ?_, fun hq hend => ?_⟩
  · rw [hrest] at hleaves
    obtain ⟨ts, rfl, -⟩ := hleaves
    exact ⟨ts, Stream.toList_prepend ts rest⟩
  · rw [hrest] at hleaves
    obtain ⟨ts, start, rfl, he, hleft⟩ := hleaves
    obtain ⟨behind, hbehind⟩ := start.exists_toList_eq
    refine ⟨ts, start.head, behind, by rw [Stream.toList_prepend, hbehind], he, ?_⟩
    rcases hleft with ⟨rfl, -⟩ | ⟨rfl, -⟩
    · exact .inl hbehind
    · -- the end of the file is there again after it was taken
      cases hitems : start.items with
      | nil => exact .inl ((Stream.head_of_items_nil hitems).2.symm ▸ hbehind)
      | cons x xs =>
        have hstart : start.toList = x :: start.tail.toList := by
          simp [Stream.toList, Stream.tail, Stream.finish, hitems]
        exact .inr (List.cons.inj (hstart.symm.trans hbehind)).2
  · have hitems : s.items ≠ [] := fun hitems => hend ((Stream.atEnd_iff h).2 hitems)
    cases q with
    | expression => exact hleaves.length_lt hitems
    | statement => exact hleaves.length_lt hitems
    | program => exact absurd rfl hq

/-- **No token is lost and none comes twice.** Whatever has been asked of one parser of a script, in
    any order and behind any errors, what it has left is the end of what the script is made of, and
    what a reader of the script shows after the calls that were made; the next request is served
    with it, and requests for expressions or statements reach the end of the file once they are as
    many as the items before it. -/
theorem Stream.leftover (source : String) (requests : List Request) :
    ((ofString source).after requests).toList <:+ (ofString source).toList ∧
      (∃ calls, ((Reader.ofText source.toList).after calls).Shows
        ((ofString source).after requests)) ∧
      (∀ q : Request, q.Served ((ofString source).after requests)) ∧
      ∀ more : List Request, (∀ q ∈ more, q ≠ .program) →
        ((ofString source).after requests).items.length ≤ more.length →
          (((ofString source).after requests).after more).AtEnd := by
  have hrest := (ofString source).isRestOf_after requests
  refine ⟨hrest.toList_suffix, exists_calls_after (Reader.shows_ofText source.toList) requests,
    fun q => q.served hrest, fun more hmore hlength => ?_⟩
  exact (atEnd_iff (hrest.trans (isRestOf_after _ more))).2 (items_after_eq_nil hmore hlength)

end StageScript
