import StageScript.Proofs.Acceptance
import StageScript.Proofs.Respelling

set_option autoImplicit false

/-! # Scripts that are read alike

Two streams are alike if their items are, one by one, once every run of newlines is cut down to its
first. Then the parsers take like items off both of them and come to like results, or fail at like
items: `Reply.Like` says this of two replies and composes along `bind`, and it is proved of every
parser with the same bound on both sides. What a statement leaves behind may start with newlines on
one side only, since it takes no more than one; whatever reads on skips them first. Main statement:
`Parser.statements_like`. -/

namespace StageScript

/-! ## Runs of newlines -/

/-- The items with the first newline of every run alone; a run at the start is left out altogether
    if newlines are skipped there. -/
def squeeze : Bool → List Item → List Item
  | _, [] => []
  | skip, x :: xs =>
    if Parser.isNewline x && skip then squeeze true xs else x :: squeeze (Parser.isNewline x) xs

theorem squeeze_false_cons (x : Item) (xs : List Item) :
    squeeze false (x :: xs) = x :: squeeze (Parser.isNewline x) xs := by
  simp [squeeze]

/-- Skipping newlines is leaving them out. -/
theorem squeeze_true (xs : List Item) :
    squeeze true xs = squeeze false (xs.dropWhile Parser.isNewline) := by
  induction xs with
  | nil => rfl
  | cons x xs ih =>
    by_cases hx : Parser.isNewline x = true
    · rw [squeeze, List.dropWhile_cons_of_pos hx, ← ih]
      simp [hx]
    · rw [squeeze, List.dropWhile_cons_of_neg hx, squeeze_false_cons]
      simp [hx]

/-- Lists that correspond when they are squeezed start with corresponding items. -/
theorem forall₂_squeeze_cases {R : Item → Item → Prop} {xs ys : List Item}
    (h : List.Forall₂ R (squeeze false xs) (squeeze false ys)) :
    xs = [] ∧ ys = [] ∨ ∃ x xs' y ys', xs = x :: xs' ∧ ys = y :: ys' ∧ R x y ∧
      List.Forall₂ R (squeeze (Parser.isNewline x) xs') (squeeze (Parser.isNewline y) ys') := by
  match xs, ys with
  | [], [] => exact .inl ⟨rfl, rfl⟩
  | [], y :: ys =>
    rw [squeeze_false_cons] at h
    cases h
  | x :: xs, [] =>
    rw [squeeze_false_cons] at h
    cases h
  | x :: xs, y :: ys =>
    rw [squeeze_false_cons, squeeze_false_cons] at h
    obtain ⟨hx, hxs⟩ := List.forall₂_cons.1 h
    exact .inr ⟨x, xs, y, ys, rfl, rfl, hx, hxs⟩

/-- Lists that correspond item by item do so when they are squeezed. -/
theorem forall₂_squeeze {R : Item → Item → Prop}
    (hR : ∀ x y, R x y → Parser.isNewline y = Parser.isNewline x) {xs ys : List Item}
    (h : List.Forall₂ R xs ys) (skip : Bool) :
    List.Forall₂ R (squeeze skip xs) (squeeze skip ys) := by
  induction h generalizing skip with
  | nil => exact .nil
  | @cons x y _ _ hxy _ ih =>
    rw [squeeze, squeeze, hR x y hxy]
    split
    · exact ih true
    · exact .cons hxy (ih _)

/-! ## Likeness -/

/-- The tokens are of one kind, with the same text if they are words and respelled if they are
    literals, on lines that are the same after `line`. -/
structure Token.Like (spell : String → String) (line : Nat → Nat) (t t' : Token) : Prop where
  kind : t'.kind = t.kind
  word : t.kind = .identifier → t'.text = t.text
  literal : t.kind = .number ∨ t.kind = .string → t'.text = spell t.text
  line : line t'.line = line t.line

/-- The items are like tokens, or lexical errors of corresponding kinds. -/
inductive Item.Like (spell : String → String) (line : Nat → Nat)
    (error : LexicalErrorKind → LexicalErrorKind) : Item → Item → Prop where
  | token {t t' : Token} (h : t.Like spell line t') : Like spell line error (.token t) (.token t')
  | error {e e' : LexicalError} (h : e'.kind = error e.kind) :
    Like spell line error (.error e) (.error e')

/-- The errors are of one kind, which for lexical errors means corresponding kinds. -/
inductive ParseErrorKind.Like (error : LexicalErrorKind → LexicalErrorKind) :
    ParseErrorKind → ParseErrorKind → Prop where
  | lexical {e e' : LexicalError} (h : e'.kind = error e.kind) :
    Like error (.lexical e) (.lexical e')
  | same {kind : ParseErrorKind} (h : ∀ e, kind ≠ .lexical e) : Like error kind kind

/-- In what way two scripts are alike. -/
structure Likeness where
  /-- The spelling in the second script of a number or string of the first. -/
  spell : String → String
  /-- What counts of a line. -/
  line : Nat → Nat
  /-- The kind of error in the second script that corresponds to one in the first. -/
  error : LexicalErrorKind → LexicalErrorKind
  /-- The items that correspond to each other. -/
  Alike : Item → Item → Prop
  like : ∀ {x x' : Item}, Alike x x' → x.Like spell line error x'

namespace Likeness

variable (m : Likeness)

theorem token {t t' : Token} (h : m.Alike (.token t) (.token t')) : t.Like m.spell m.line t' := by
  cases m.like h with
  | token htoken => exact htoken

/-! ## Like streams -/

/-- The items of the two streams correspond, and so do their ends. -/
structure Streams (skip : Bool) (s s' : Stream) : Prop where
  items : List.Forall₂ m.Alike (squeeze skip s.items) (squeeze skip s'.items)
  finish : m.Alike (.token s.finish) (.token s'.finish)

variable {m}

theorem isNewline_eq {x x' : Item} (h : m.Alike x x') :
    Parser.isNewline x' = Parser.isNewline x := by
  cases m.like h with
  | token htoken => simp [Parser.isNewline, htoken.kind]
  | error herror => rfl

namespace Streams

variable {s s' : Stream}

theorem head (h : m.Streams false s s') : m.Alike s.head s'.head := by
  obtain ⟨items, stop, line⟩ := s
  obtain ⟨items', stop', line'⟩ := s'
  obtain ⟨rfl, rfl⟩ | ⟨x, xs, x', xs', rfl, rfl, hx, -⟩ := forall₂_squeeze_cases h.items
  · exact h.finish
  · exact hx

/-- Behind a newline there may be more of them. -/
theorem tail (h : m.Streams false s s') :
    m.Streams (Parser.isNewline s.head) s.tail s'.tail := by
  obtain ⟨items, stop, line⟩ := s
  obtain ⟨items', stop', line'⟩ := s'
  refine ⟨?_, h.finish⟩
  obtain ⟨rfl, rfl⟩ | ⟨x, xs, x', xs', rfl, rfl, hx, hxs⟩ := forall₂_squeeze_cases h.items
  · exact .nil
  · rw [isNewline_eq hx] at hxs
    exact hxs

theorem tail_of_kind (h : m.Streams false s s') {t : Token} (ht : s.head = .token t)
    (hk : t.kind ≠ .newline) : m.Streams false s.tail s'.tail := by
  have htail := h.tail
  rwa [ht, show Parser.isNewline (.token t) = false by simpa [Parser.isNewline] using hk] at htail

theorem loosen (h : m.Streams false s s') : m.Streams true s s' := by
  obtain ⟨items, stop, line⟩ := s
  obtain ⟨items', stop', line'⟩ := s'
  refine ⟨?_, h.finish⟩
  obtain ⟨rfl, rfl⟩ | ⟨x, xs, x', xs', rfl, rfl, hx, hxs⟩ := forall₂_squeeze_cases h.items
  · exact .nil
  · dsimp only
    rw [squeeze, squeeze, isNewline_eq hx]
    rw [isNewline_eq hx] at hxs
    by_cases hnewline : Parser.isNewline x = true
    · simpa [hnewline] using hxs
    · simpa [hnewline, hx] using hxs

theorem dropNewlines (h : m.Streams true s s') :
    m.Streams false s.dropNewlines s'.dropNewlines := by
  refine ⟨?_, h.finish⟩
  have hitems := h.items
  rwa [squeeze_true, squeeze_true] at hitems

end Streams

/-! ## Like results -/

variable (m)

/-- The errors are of corresponding kinds at corresponding items. -/
structure Errors (e e' : ParseError) : Prop where
  kind : e.kind.Like m.error e'.kind
  place : ∃ x x', m.Alike x x' ∧ e.At x ∧ e'.At x'

def Literals (l l' : Literal) : Prop := l' = l.respell m.spell

def Trees (t t' : Tree) : Prop := t'.mapLines m.line = (t.respell m.spell).mapLines m.line

def CallArguments (a a' : TreeArguments) : Prop :=
  a'.mapLines m.line = (a.respell m.spell).mapLines m.line

def Statements (st st' : Statement) : Prop :=
  st'.mapLines m.line = (st.respell m.spell).mapLines m.line

end Likeness

/-- The replies are like results with like streams left, or like errors. -/
def Reply.Like {α : Type} (m : Likeness) (V : α → α → Prop) (Q : Stream → Stream → Prop) :
    Reply α → Reply α → Prop
  | .ok a rest, .ok a' rest' => V a a' ∧ Q rest rest'
  | .error e _, .error e' _ => m.Errors e e'
  | .ok _ _, .error _ _ | .error _ _, .ok _ _ => False

/-! ## One parser after the other -/

namespace Parser

variable {m : Likeness} {α β : Type} {V : α → α → Prop} {W : β → β → Prop}
  {Q R : Stream → Stream → Prop} {s s' : Stream}

theorem like_bind_of_ok {p p' : Parser α} {f f' : α → Parser β} (hp : (p s).Like m V Q (p' s'))
    (hf : ∀ a a' rest rest', p s = .ok a rest → V a a' → Q rest rest' →
      (f a rest).Like m W R (f' a' rest')) : ((p >>= f) s).Like m W R ((p' >>= f') s') := by
  rw [bind_apply, bind_apply]
  cases h : p s with
  | ok a rest =>
    cases h' : p' s' with
    | ok a' rest' =>
      rw [h, h'] at hp
      exact hf a a' rest rest' h hp.1 hp.2
    | error e' rest' =>
      rw [h, h'] at hp
      exact hp.elim
  | error e rest =>
    cases h' : p' s' with
    | ok a' rest' =>
      rw [h, h'] at hp
      exact hp.elim
    | error e' rest' =>
      rw [h, h'] at hp
      exact hp

theorem like_bind {p p' : Parser α} {f f' : α → Parser β} (hp : (p s).Like m V Q (p' s'))
    (hf : ∀ a a' rest rest', V a a' → Q rest rest' → (f a rest).Like m W R (f' a' rest')) :
    ((p >>= f) s).Like m W R ((p' >>= f') s') :=
  like_bind_of_ok hp fun a a' rest rest' _ => hf a a' rest rest'

theorem like_pure {a a' : α} (ha : V a a') (hs : Q s s') :
    ((pure a : Parser α) s).Like m V Q ((pure a' : Parser α) s') := ⟨ha, hs⟩

/-- Failing at like tokens is alike. -/
theorem like_fail {kind : ParseErrorKind} (hkind : ∀ l, kind ≠ .lexical l) {t t' : Token}
    (ht : m.Alike (.token t) (.token t')) :
    ((fail kind t : Parser α) s).Like m V Q ((fail kind t' : Parser α) s') :=
  ⟨.same hkind, _, _, ht, .of_token hkind, .of_token hkind⟩

theorem errors_ofLexical {e e' : LexicalError} (h : m.Alike (.error e) (.error e')) :
    m.Errors (.ofLexical e) (.ofLexical e') := by
  cases m.like h with
  | error hkind => exact ⟨.lexical hkind, _, _, h, .of_lexical e, .of_lexical e'⟩

/-! ## Single items -/

/-- The next items of like streams are like tokens, or lexical errors. -/
theorem head_cases (h : m.Streams false s s') :
    (∃ t t', s.head = .token t ∧ s'.head = .token t' ∧ m.Alike (.token t) (.token t')) ∨
      ∃ e e', s.head = .error e ∧ s'.head = .error e' ∧ m.Alike (.error e) (.error e') := by
  have hhead := h.head
  cases hs : s.head with
  | token t =>
    cases hs' : s'.head with
    | token t' => exact .inl ⟨t, t', rfl, rfl, by rwa [hs, hs'] at hhead⟩
    | error e' =>
      rw [hs, hs'] at hhead
      cases m.like hhead
  | error e =>
    cases hs' : s'.head with
    | token t' =>
      rw [hs, hs'] at hhead
      cases m.like hhead
    | error e' => exact .inr ⟨e, e', rfl, rfl, by rwa [hs, hs'] at hhead⟩

theorem like_peek_bind {f f' : Token → Parser β} (h : m.Streams false s s')
    (hf : ∀ t t', s.head = .token t → m.Alike (.token t) (.token t') →
      (f t s).Like m W R (f' t' s')) : ((peek >>= f) s).Like m W R ((peek >>= f') s') := by
  obtain ⟨t, t', ht, ht', halike⟩ | ⟨e, e', he, he', halike⟩ := head_cases h
  · rw [bind_of_ok (peek_of_token ht), bind_of_ok (peek_of_token ht')]
    exact hf t t' ht halike
  · rw [bind_of_error (peek_of_error he), bind_of_error (peek_of_error he')]
    exact errors_ofLexical halike

theorem like_next_bind {f f' : Token → Parser β} (h : m.Streams false s s')
    (hf : ∀ t t', s.head = .token t → m.Alike (.token t) (.token t') →
      (f t s.tail).Like m W R (f' t' s'.tail)) :
    ((next >>= f) s).Like m W R ((next >>= f') s') := by
  obtain ⟨t, t', ht, ht', halike⟩ | ⟨e, e', he, he', halike⟩ := head_cases h
  · rw [bind_of_ok (next_of_token ht), bind_of_ok (next_of_token ht')]
    exact hf t t' ht halike
  · rw [bind_of_error (next_of_error he), bind_of_error (next_of_error he')]
    exact errors_ofLexical halike

theorem like_eat (h : m.Streams false s s') {kind : TokenKind} (hkind : kind ≠ .newline) :
    (eat kind s).Like m Eq (m.Streams false) (eat kind s') := by
  refine like_peek_bind h fun t t' ht halike => ?_
  rw [(m.token halike).kind]
  by_cases hk : t.kind = kind
  · rw [if_pos hk]
    exact like_next_bind h fun _ _ _ _ => ⟨rfl, h.tail_of_kind ht (hk ▸ hkind)⟩
  · rw [if_neg hk]
    exact ⟨rfl, h⟩

theorem like_expect (h : m.Streams false s s') {kind : TokenKind} (hkind : kind ≠ .newline) :
    (expect kind s).Like m (fun t t' => t.kind = kind ∧ m.Alike (.token t) (.token t'))
      (m.Streams false) (expect kind s') := by
  refine like_next_bind h fun t t' ht halike => ?_
  rw [(m.token halike).kind]
  by_cases hk : t.kind = kind
  · rw [if_pos hk, if_pos hk]
    exact ⟨⟨hk, halike⟩, h.tail_of_kind ht (hk ▸ hkind)⟩
  · rw [if_neg hk, if_neg hk]
    exact like_fail (by simp) halike

theorem like_skipNewlines (h : m.Streams true s s') :
    (skipNewlines s).Like m (fun _ _ => True) (m.Streams false) (skipNewlines s') :=
  like_peek_bind h.dropNewlines fun _ _ _ _ => ⟨trivial, h.dropNewlines⟩

/-- Behind the newline that ends a statement there may be more of them. -/
theorem like_terminator (h : m.Streams false s s') :
    (terminator s).Like m (fun _ _ => True) (m.Streams true) (terminator s') := by
  refine like_peek_bind h fun t t' ht halike => ?_
  rw [(m.token halike).kind]
  cases hk : t.kind
  case endOfFile => exact ⟨trivial, h.loosen⟩
  case newline =>
    have htail := h.tail
    rw [ht, show Parser.isNewline (.token t) = true by simp [Parser.isNewline, hk]] at htail
    exact like_next_bind h fun _ _ _ _ => ⟨trivial, htail⟩
  all_goals exact like_fail (by simp) halike

/-! ## Arguments and jumps -/

theorem like_argumentValue (h : m.Streams false s s') :
    (argumentValue s).Like m m.Literals (m.Streams false) (argumentValue s') := by
  refine like_next_bind h fun t t' ht halike => ?_
  have htoken := m.token halike
  rw [htoken.kind]
  cases hk : t.kind
  case number =>
    refine like_pure ?_ (h.tail_of_kind ht (by simp [hk]))
    rw [htoken.literal (.inl hk)]
    rfl
  case string =>
    refine like_pure ?_ (h.tail_of_kind ht (by simp [hk]))
    rw [htoken.literal (.inr hk)]
    rfl
  case identifier =>
    refine like_pure ?_ (h.tail_of_kind ht (by simp [hk]))
    rw [htoken.word hk]
    rfl
  all_goals exact like_fail (by simp) halike

theorem like_jump (h : m.Streams false s s') :
    (jump s).Like m Eq (m.Streams true) (jump s') := by
  refine like_bind (like_eat h (by simp)) fun taken _ rest rest' htaken hrest => ?_
  subst htaken
  cases taken with
  | true =>
    refine like_bind (like_expect hrest (by simp)) fun t t' mid mid' ht hmid => ?_
    refine like_bind (like_terminator hmid) fun _ _ last last' _ hlast => ⟨?_, hlast⟩
    rw [(m.token ht.2).word ht.1]
  | false => exact ⟨rfl, hrest.loosen⟩

/-! ## One round of calls -/

namespace Parsers

/-- The parsers come to like replies on like streams. -/
structure Like (m : Likeness) (c : Parsers) : Prop where
  tree : ∀ {s s'} power, m.Streams false s s' →
    (c.tree power s).Like m m.Trees (m.Streams false) (c.tree power s')
  operand : ∀ {s s'}, m.Streams false s s' →
    (c.operand s).Like m m.Trees (m.Streams false) (c.operand s')
  word : ∀ {s s' w w'}, m.Streams false s s' → m.Alike (.token w) (.token w') →
    w.kind = .identifier → (c.word w s).Like m m.Trees (m.Streams false) (c.word w' s')
  arguments : ∀ {s s'}, m.Streams false s s' →
    (c.arguments s).Like m m.CallArguments (m.Streams false) (c.arguments s')
  operators : ∀ {s s' lhs lhs'} power, m.Streams false s s' → m.Trees lhs lhs' →
    (c.operators power lhs s).Like m m.Trees (m.Streams false) (c.operators power lhs' s')
  commandArguments : ∀ {s s'} a, m.Streams false s s' →
    (c.commandArguments a s).Like m (fun b b' => b' = b.respell m.spell) (m.Streams false)
      (c.commandArguments (a.respell m.spell) s')
  statement : ∀ {s s'}, m.Streams false s s' →
    (c.statement s).Like m m.Statements (m.Streams true) (c.statement s')

namespace Like

variable {c : Parsers}

theorem step_operand (h : c.Like m) (hs : m.Streams false s s') :
    (c.step.operand s).Like m m.Trees (m.Streams false) (c.step.operand s') := by
  refine like_next_bind hs fun t t' ht halike => ?_
  have htoken := m.token halike
  rw [htoken.kind]
  cases hk : t.kind
  case number =>
    refine like_pure ?_ (hs.tail_of_kind ht (by simp [hk]))
    rw [Likeness.Trees, htoken.literal (.inl hk), Tree.mapLines, htoken.line]
    rfl
  case string =>
    refine like_pure ?_ (hs.tail_of_kind ht (by simp [hk]))
    rw [Likeness.Trees, htoken.literal (.inr hk), Tree.mapLines, htoken.line]
    rfl
  case identifier => exact h.word (hs.tail_of_kind ht (by simp [hk])) halike hk
  case leftParen =>
    refine like_bind (h.tree 0 (hs.tail_of_kind ht (by simp [hk]))) fun _ _ _ _ hinner hrest => ?_
    refine like_bind (like_expect hrest (by simp)) fun _ _ _ _ _ hlast => ⟨?_, hlast⟩
    exact congrArg Tree.group hinner
  all_goals exact like_fail (by simp) halike

theorem step_word (h : c.Like m) {w w' : Token} (hs : m.Streams false s s')
    (hw : m.Alike (.token w) (.token w')) (hk : w.kind = .identifier) :
    (c.step.word w s).Like m m.Trees (m.Streams false) (c.step.word w' s') := by
  have htoken := m.token hw
  refine like_bind (like_eat hs (by simp)) fun taken _ rest rest' htaken hrest => ?_
  subst htaken
  cases taken with
  | true =>
    refine like_bind (h.arguments hrest) fun _ _ _ _ ha hlast => ⟨?_, hlast⟩
    rw [Likeness.Trees, Tree.mapLines, Tree.respell, Tree.mapLines, htoken.word hk, htoken.line, ha]
  | false =>
    refine ⟨?_, hrest⟩
    rw [Likeness.Trees, Tree.mapLines, htoken.word hk, htoken.line]
    rfl

/-- A value and the arguments behind it, on both sides. -/
theorem callArguments_cons (key : Option String) {value value' : Tree} {rest rest' : TreeArguments}
    (hvalue : m.Trees value value') (hrest : m.CallArguments rest rest') :
    m.CallArguments (.cons key value rest) (.cons key value' rest') := by
  rw [Likeness.CallArguments, TreeArguments.mapLines, TreeArguments.respell, TreeArguments.mapLines,
    hvalue, hrest]

theorem step_arguments (h : c.Like m) (hs : m.Streams false s s') :
    (c.step.arguments s).Like m m.CallArguments (m.Streams false) (c.step.arguments s') := by
  have hvalue : ∀ {s s'} key, m.Streams false s s' → Reply.Like m m.CallArguments (m.Streams false)
      ((do
        let value ← c.tree 0
        let rest ← c.arguments
        return TreeArguments.cons key value rest) s) ((do
        let value ← c.tree 0
        let rest ← c.arguments
        return TreeArguments.cons key value rest) s') := fun key hs =>
    like_bind (h.tree 0 hs) fun _ _ _ _ hvalue hmid =>
      like_bind (h.arguments hmid) fun _ _ _ _ hrest hlast =>
        ⟨callArguments_cons key hvalue hrest, hlast⟩
  refine like_peek_bind hs fun t t' ht halike => ?_
  rw [(m.token halike).kind]
  cases hk : t.kind
  case rightParen =>
    exact like_next_bind hs fun _ _ _ _ => ⟨rfl, hs.tail_of_kind ht (by simp [hk])⟩
  case endOfFile => exact like_fail (by simp) halike
  case identifier =>
    refine like_next_bind hs fun w w' hw hwalike => ?_
    rw [ht] at hw
    cases hw
    have htail := hs.tail_of_kind ht (by simp [hk])
    refine like_bind (like_eat htail (by simp)) fun taken _ mid mid' htaken hmid => ?_
    subst htaken
    cases taken with
    | true =>
      rw [(m.token hwalike).word hk]
      exact hvalue (some t.text) hmid
    | false =>
      refine like_bind (h.word hmid hwalike hk) fun _ _ _ _ hlhs hrest => ?_
      refine like_bind (h.operators 0 hrest hlhs) fun _ _ _ _ hvalue hlast => ?_
      exact like_bind (h.arguments hlast) fun _ _ _ _ hmore hend =>
        ⟨callArguments_cons none hvalue hmore, hend⟩
  all_goals exact hvalue none hs

theorem step_operators (h : c.Like m) {lhs lhs' : Tree} (power : Nat) (hs : m.Streams false s s')
    (hlhs : m.Trees lhs lhs') :
    (c.step.operators power lhs s).Like m m.Trees (m.Streams false)
      (c.step.operators power lhs' s') := by
  refine like_peek_bind hs fun t t' ht halike => ?_
  rw [(m.token halike).kind]
  cases ho : Operator.ofToken? t.kind with
  | none => exact ⟨hlhs, hs⟩
  | some o =>
    have hk : t.kind ≠ .newline := fun hk => by simp [hk, Operator.ofToken?] at ho
    dsimp only
    split
    · exact ⟨hlhs, hs⟩
    · refine like_next_bind hs fun _ _ _ _ => ?_
      refine like_bind (h.tree _ (hs.tail_of_kind ht hk)) fun rhs rhs' _ _ hrhs hrest => ?_
      refine h.operators power hrest ?_
      rw [Likeness.Trees, Tree.respell_join, Tree.mapLines_join, Tree.mapLines_join, hlhs, hrhs]

theorem step_commandArguments (h : c.Like m) (a : Arguments) (hs : m.Streams false s s') :
    (c.step.commandArguments a s).Like m (fun b b' => b' = b.respell m.spell) (m.Streams false)
      (c.step.commandArguments (a.respell m.spell) s') := by
  have hvalue : ∀ {s s'} key, m.Streams false s s' →
      Reply.Like m (fun b b' => b' = b.respell m.spell) (m.Streams false)
        ((argumentValue >>= fun v => c.commandArguments (a.insert key v)) s)
        ((argumentValue >>= fun v =>
          c.commandArguments ((a.respell m.spell).insert key v)) s') := by
    intro s s' key hs
    refine like_bind (like_argumentValue hs) fun l l' _ _ hl hrest => ?_
    rw [hl, Arguments.insert_respell]
    exact h.commandArguments _ hrest
  refine like_peek_bind hs fun t t' ht halike => ?_
  have htoken := m.token halike
  rw [htoken.kind]
  cases hk : t.kind
  case identifier =>
    refine like_next_bind hs fun w w' hw hwalike => ?_
    rw [ht] at hw
    cases hw
    have htail := hs.tail_of_kind ht (by simp [hk])
    rw [(m.token hwalike).word hk]
    refine like_bind (like_eat htail (by simp)) fun taken _ mid mid' htaken hmid => ?_
    subst htaken
    cases taken with
    | true => exact hvalue t.text hmid
    | false =>
      have hinsert := a.insert_respell m.spell Arguments.defaultKey (.word t.text)
      rw [show (Literal.word t.text).respell m.spell = .word t.text from rfl] at hinsert
      rw [hinsert]
      exact h.commandArguments _ hmid
  case number => exact hvalue _ hs
  case string => exact hvalue _ hs
  all_goals exact ⟨rfl, hs⟩

theorem step_statement (h : c.Like m) (hs : m.Streams false s s') :
    (c.step.statement s).Like m m.Statements (m.Streams true) (c.step.statement s') := by
  refine like_next_bind hs fun t t' ht halike => ?_
  have htoken := m.token halike
  rw [htoken.kind]
  cases hk : t.kind
  case string =>
    have htail := hs.tail_of_kind ht (by simp [hk])
    refine like_bind (like_terminator htail) fun _ _ _ _ _ hrest => ⟨?_, hrest⟩
    rw [Likeness.Statements, htoken.literal (.inr hk), Statement.mapLines, htoken.line]
    rfl
  case identifier =>
    have htail := hs.tail_of_kind ht (by simp [hk])
    refine like_bind (h.commandArguments .empty htail) fun a a' _ _ ha hmid => ?_
    refine like_bind (like_terminator hmid) fun _ _ _ _ _ hrest => ⟨?_, hrest⟩
    rw [Likeness.Statements, htoken.word hk, ha, Statement.mapLines, htoken.line]
    rfl
  case guardMark =>
    have htail := hs.tail_of_kind ht (by simp [hk])
    refine like_bind (h.tree 0 htail) fun condition condition' _ _ hcondition hbehind => ?_
    refine like_bind (like_skipNewlines hbehind.loosen) fun _ _ _ _ _ hstart => ?_
    refine like_bind (h.statement hstart) fun body body' _ _ hbody hdone => ?_
    refine like_bind (like_skipNewlines hdone) fun _ _ _ _ _ hlast => ?_
    refine like_bind (like_jump hlast) fun label _ _ _ hlabel hrest => ⟨?_, hrest⟩
    subst hlabel
    rw [Likeness.Statements, Statement.mapLines, Statement.respell, Statement.mapLines, hbody,
      htoken.line, ← Expression.ofTree_mapLines, hcondition, Expression.ofTree_mapLines,
      Expression.ofTree_respell]
  all_goals exact like_fail (by simp) halike

theorem step (h : c.Like m) : c.step.Like m where
  tree power hs := like_bind (h.operand hs) fun _ _ _ _ hlhs hrest => h.operators power hrest hlhs
  operand := h.step_operand
  word := h.step_word
  arguments := h.step_arguments
  operators := h.step_operators
  commandArguments := h.step_commandArguments
  statement := h.step_statement

end Like

/-! ## Without a bound -/

theorem like_exhausted {α : Type} {V : α → α → Prop} {Q : Stream → Stream → Prop}
    (hs : m.Streams false s s') :
    ((exhausted : Parser α) s).Like m V Q ((exhausted : Parser α) s') :=
  ⟨.same (by simp [ParseError.atToken]), _, _, hs.finish, .of_token (by simp), .of_token (by simp)⟩

theorem like_within (bound : Nat) : (within bound).Like m := by
  induction bound with
  | zero =>
    exact ⟨fun _ hs => like_exhausted hs, fun hs => like_exhausted hs,
      fun hs _ _ => like_exhausted hs, fun hs => like_exhausted hs,
      fun _ hs _ => like_exhausted hs, fun _ hs => like_exhausted hs, fun hs => like_exhausted hs⟩
  | succ bound ih => exact within_succ bound ▸ ih.step

end Parsers

/-- One bound is enough for both streams. -/
theorem statement_like (hs : m.Streams false s s') :
    (statement s).Like m m.Statements (m.Streams true) (statement s') := by
  let bound := max (enough s) (enough s')
  have hagree := Parsers.agree_whole bound
  have h := (Parsers.like_within bound).statement hs
  rw [hagree.statement s (by simp only [bound, enough]; omega),
    hagree.statement s' (by simp only [bound, enough]; omega)] at h
  exact h

/-- Newlines before statements are passed over. -/
theorem statements_dropNewlines (s : Stream) : statements s.dropNewlines = statements s := by
  obtain ⟨ns, hns, hs, -⟩ := s.exists_newlines
  conv_rhs => rw [hs]
  clear hs
  induction ns with
  | nil => rfl
  | cons n ns ih =>
    obtain ⟨hn, hns⟩ := List.forall_mem_cons.1 hns
    have hhead : (s.dropNewlines.prepend (n :: ns)).head = .token n := rfl
    rw [ih hns]
    conv_rhs => rw [statements_eq, bind_of_ok (peek_of_token hhead), hn]
    exact (bind_of_ok (f := fun _ => statements) (next_of_token hhead)).symm

/-- **Statements are read alike from like streams**, with any newlines at the start of either. -/
theorem statements_like {s s' : Stream} (hs : m.Streams true s s') :
    (statements s).Like m (List.Forall₂ m.Statements) (fun _ _ => True) (statements s') := by
  have hdrop := hs.dropNewlines
  have hle := s.length_dropNewlines_le
  obtain ⟨-, -, -, hhead⟩ := s.exists_newlines
  rw [← statements_dropNewlines s, ← statements_dropNewlines s', statements_eq]
  refine like_peek_bind hdrop fun t t' ht halike => ?_
  rw [(m.token halike).kind]
  have hstatement : Reply.Like m (List.Forall₂ m.Statements) (fun _ _ => True)
      ((do
        let st ← statement
        let rest ← statements
        return st :: rest) s.dropNewlines) ((do
        let st ← statement
        let rest ← statements
        return st :: rest) s'.dropNewlines) := by
    refine like_bind_of_ok (statement_like hdrop) fun st st' rest rest' hread hst hrest => ?_
    have hlt := Parsers.advance_whole.statement _ _ _ hread
    exact like_bind (statements_like hrest) fun _ _ _ _ hmore _ => ⟨.cons hst hmore, trivial⟩
  cases hk : t.kind
  case newline =>
    rw [ht] at hhead
    simp [isNewline, hk] at hhead
  case endOfFile => exact ⟨.nil, trivial⟩
  all_goals exact hstatement
termination_by s.items.length

end Parser

/-- How two scripts that are alike are read. -/
inductive Program.ParsedLike (m : Likeness) :
    Except ParseError Program → Except ParseError Program → Prop where
  | ok {p p' : Program} (h : List.Forall₂ m.Statements p.statements p'.statements) :
    ParsedLike m (.ok p) (.ok p')
  | error {e e' : ParseError} (h : m.Errors e e') : ParsedLike m (.error e) (.error e')

/-- Scripts whose items are alike, apart from how long runs of newlines are, are read alike. -/
theorem Program.parsedLike {m : Likeness} {source source' : String}
    (h : m.Streams true (.ofString source) (.ofString source')) :
    ParsedLike m (parse source) (parse source') := by
  have hlike := Parser.statements_like h
  cases hp : parse source with
  | ok p =>
    obtain ⟨rest, hread⟩ := parse_eq_ok.1 hp
    cases hp' : parse source' with
    | ok p' =>
      obtain ⟨rest', hread'⟩ := parse_eq_ok.1 hp'
      rw [hread, hread'] at hlike
      exact .ok hlike.1
    | error e' =>
      obtain ⟨rest', hread'⟩ := parse_eq_error.1 hp'
      rw [hread, hread'] at hlike
      exact hlike.elim
  | error e =>
    obtain ⟨rest, hread⟩ := parse_eq_error.1 hp
    cases hp' : parse source' with
    | ok p' =>
      obtain ⟨rest', hread'⟩ := parse_eq_ok.1 hp'
      rw [hread, hread'] at hlike
      exact hlike.elim
    | error e' =>
      obtain ⟨rest', hread'⟩ := parse_eq_error.1 hp'
      rw [hread, hread'] at hlike
      exact .error hlike

end StageScript
