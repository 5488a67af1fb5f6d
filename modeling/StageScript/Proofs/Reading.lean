import StageScript.Syntax.Parser

set_option autoImplicit false

/-! # Reading items one at a time

What the parsers of single items do, said through the next item of the stream: a token is handed
over, a lexical error is passed on. `Stream.prepend` puts tokens back in front of a stream, so that
"these tokens were taken" is an equation between streams, and `Parser.Consumes` counts how many
items a successful parser takes at least. -/

namespace StageScript

/-! ## Tokens in front of a stream -/

namespace Stream

/-- The stream with some tokens in front of it. -/
def prepend (ts : List Token) (s : Stream) : Stream :=
  { s with items := ts.map Item.token ++ s.items }

@[simp] theorem head_prepend_cons (t : Token) (ts : List Token) (s : Stream) :
    (s.prepend (t :: ts)).head = .token t := rfl

@[simp] theorem tail_prepend_cons (t : Token) (ts : List Token) (s : Stream) :
    (s.prepend (t :: ts)).tail = s.prepend ts := rfl

@[simp] theorem prepend_prepend (ts us : List Token) (s : Stream) :
    (s.prepend us).prepend ts = s.prepend (ts ++ us) := by
  simp [prepend]

@[simp] theorem length_items_prepend (ts : List Token) (s : Stream) :
    (s.prepend ts).items.length = ts.length + s.items.length := by
  simp [prepend]

theorem toList_prepend (ts : List Token) (s : Stream) :
    (s.prepend ts).toList = ts.map Item.token ++ s.toList := by
  simp [prepend, toList, finish]

/-- A token other than the end of the file is taken off the items. -/
theorem eq_prepend_of_head {s : Stream} {t : Token} (h : s.head = .token t)
    (ht : t.kind ≠ .endOfFile) : s = s.tail.prepend [t] := by
  obtain ⟨items, stop, line⟩ := s
  cases items with
  | nil =>
    have hfinish : finish ⟨[], stop, line⟩ = t := Item.token.inj h
    exact absurd (by rw [← hfinish]; rfl) ht
  | cons item items =>
    have hitem : item = .token t := h
    subst hitem
    rfl

theorem length_tail_of_head {s : Stream} {t : Token} (h : s.head = .token t)
    (ht : t.kind ≠ .endOfFile) : s.tail.items.length + 1 = s.items.length := by
  have hs := congrArg (fun u : Stream => u.items.length) (eq_prepend_of_head h ht)
  simp only [length_items_prepend, List.length_singleton] at hs
  omega

theorem length_tail_le (s : Stream) : s.tail.items.length ≤ s.items.length := by
  simp [tail]

/-- The stream behind the newlines that come next. -/
def dropNewlines (s : Stream) : Stream := { s with items := s.items.dropWhile Parser.isNewline }

theorem length_dropNewlines_le (s : Stream) : s.dropNewlines.items.length ≤ s.items.length :=
  (List.dropWhile_suffix _).length_le

/-- The items that are dropped are tokens for newlines, and the item after them is none. -/
theorem exists_newlines (s : Stream) :
    ∃ ns : List Token, (∀ n ∈ ns, n.kind = .newline) ∧ s = s.dropNewlines.prepend ns ∧
      Parser.isNewline s.dropNewlines.head = false := by
  obtain ⟨items, stop, line⟩ := s
  induction items with
  | nil => exact ⟨[], by simp, rfl, rfl⟩
  | cons item items ih =>
    by_cases hitem : Parser.isNewline item = true
    · obtain ⟨ns, hns, heq, hhead⟩ := ih
      cases item with
      | error e => exact absurd hitem (by simp [Parser.isNewline])
      | token n =>
        have hn : n.kind = .newline := by simpa [Parser.isNewline] using hitem
        have hdrop : dropNewlines ⟨.token n :: items, stop, line⟩
            = dropNewlines ⟨items, stop, line⟩ := by
          simp [dropNewlines, hitem]
        refine ⟨n :: ns, by simpa [hn] using hns, ?_, by rw [hdrop]; exact hhead⟩
        rw [hdrop, show n :: ns = [n] ++ ns from rfl, ← prepend_prepend, ← heq]
        rfl
    · have hdrop : dropNewlines ⟨item :: items, stop, line⟩ = ⟨item :: items, stop, line⟩ := by
        simp [dropNewlines, hitem]
      exact ⟨[], by simp, by rw [hdrop]; rfl, by rw [hdrop]; simpa [head] using hitem⟩

theorem dropNewlines_cons {n : Token} (hn : n.kind = .newline) (us : List Token) (s : Stream) :
    (s.prepend (n :: us)).dropNewlines = (s.prepend us).dropNewlines := by
  simp [dropNewlines, prepend, Parser.isNewline, hn]

/-- Tokens for newlines are dropped up to an item that is none. -/
theorem dropNewlines_prepend {ns : List Token} (hns : ∀ n ∈ ns, n.kind = .newline) {s : Stream}
    (hs : Parser.isNewline s.head = false) : (s.prepend ns).dropNewlines = s := by
  obtain ⟨items, stop, line⟩ := s
  induction ns with
  | nil =>
    cases items with
    | nil => rfl
    | cons item items => simp_all [dropNewlines, prepend, head]
  | cons n ns ih => rw [dropNewlines_cons (hns n (by simp)), ih fun m hm => hns m (by simp [hm])]

/-- An item that is no newline stays. -/
theorem dropNewlines_of_isNewline {s : Stream} (hs : Parser.isNewline s.head = false) :
    s.dropNewlines = s := by
  have hnone : ∀ n ∈ ([] : List Token), n.kind = .newline := by simp
  exact dropNewlines_prepend hnone hs

theorem dropNewlines_of_head {s : Stream} {t : Token} (h : s.head = .token t)
    (ht : t.kind ≠ .newline) : s.dropNewlines = s :=
  dropNewlines_of_isNewline (by rw [h]; simpa [Parser.isNewline] using ht)

end Stream

/-! ## One parser after the other -/

/-- The parser succeeds. -/
def Reply.isOk {α : Type} : Reply α → Bool
  | ok _ _ => true
  | error _ _ => false

theorem Reply.exists_of_isOk {α : Type} {r : Reply α} (h : r.isOk) : ∃ a rest, r = .ok a rest := by
  cases r with
  | ok a rest => exact ⟨a, rest, rfl⟩
  | error e rest => cases h

namespace Parser

variable {α β : Type}

theorem bind_of_ok {p : Parser α} {f : α → Parser β} {s rest : Stream} {a : α}
    (h : p s = .ok a rest) : (p >>= f) s = f a rest := by
  rw [bind_apply, h]

theorem bind_of_error {p : Parser α} {f : α → Parser β} {s rest : Stream} {e : ParseError}
    (h : p s = .error e rest) : (p >>= f) s = .error e rest := by
  rw [bind_apply, h]

theorem bind_eq_ok {p : Parser α} {f : α → Parser β} {s rest : Stream} {b : β} :
    (p >>= f) s = .ok b rest ↔ ∃ a mid, p s = .ok a mid ∧ f a mid = .ok b rest := by
  rw [bind_apply]
  cases p s with
  | ok a mid =>
    constructor
    · intro h
      exact ⟨a, mid, rfl, h⟩
    · rintro ⟨_, _, ⟨⟩, h⟩
      exact h
  | error e mid => simp

theorem bind_congr {p q : Parser α} {f g : α → Parser β} {s : Stream}
    (hp : p s = q s) (hf : ∀ a rest, p s = .ok a rest → f a rest = g a rest) :
    (p >>= f) s = (q >>= g) s := by
  rw [bind_apply, bind_apply, ← hp]
  cases h : p s with
  | ok a rest => exact hf a rest h
  | error e rest => rfl

theorem bind_assoc {γ : Type} (p : Parser α) (f : α → Parser β) (g : β → Parser γ) :
    (p >>= f) >>= g = p >>= fun a => f a >>= g := by
  funext s
  simp only [bind_apply]
  cases p s <;> rfl

@[simp] theorem pure_eq_ok {a b : α} {s rest : Stream} :
    (pure a : Parser α) s = .ok b rest ↔ a = b ∧ s = rest := by
  simp [pure_apply]

@[simp] theorem fail_ne_ok {kind : ParseErrorKind} {t : Token} {s rest : Stream} {a : α} :
    (fail kind t : Parser α) s ≠ .ok a rest := by
  simp [fail]

/-! ## Single items -/

theorem peek_of_token {s : Stream} {t : Token} (h : s.head = .token t) : peek s = .ok t s := by
  rw [peek, h]

theorem peek_of_error {s : Stream} {e : LexicalError} (h : s.head = .error e) :
    peek s = .error (.ofLexical e) s := by
  rw [peek, h]

theorem next_of_token {s : Stream} {t : Token} (h : s.head = .token t) :
    next s = .ok t s.tail := by
  rw [next, h]

theorem next_of_error {s : Stream} {e : LexicalError} (h : s.head = .error e) :
    next s = .error (.ofLexical e) s.tail := by
  rw [next, h]

theorem peek_eq_ok {s rest : Stream} {t : Token} :
    peek s = .ok t rest ↔ s.head = .token t ∧ rest = s := by
  cases h : s.head with
  | token u => simp [peek_of_token h, eq_comm]
  | error e => simp [peek_of_error h]

theorem next_eq_ok {s rest : Stream} {t : Token} :
    next s = .ok t rest ↔ s.head = .token t ∧ rest = s.tail := by
  cases h : s.head with
  | token u => simp [next_of_token h, eq_comm]
  | error e => simp [next_of_error h]

theorem peek_bind_congr {f g : Token → Parser β} {s : Stream}
    (h : ∀ t, s.head = .token t → f t s = g t s) : (peek >>= f) s = (peek >>= g) s := by
  refine bind_congr rfl fun t rest ht => ?_
  obtain ⟨hhead, rfl⟩ := peek_eq_ok.1 ht
  exact h t hhead

theorem next_bind_congr {f g : Token → Parser β} {s : Stream}
    (h : ∀ t, s.head = .token t → f t s.tail = g t s.tail) : (next >>= f) s = (next >>= g) s := by
  refine bind_congr rfl fun t rest ht => ?_
  obtain ⟨hhead, rfl⟩ := next_eq_ok.1 ht
  exact h t hhead

theorem eat_of_token {kind : TokenKind} {s : Stream} {t : Token} (h : s.head = .token t) :
    eat kind s = if t.kind = kind then .ok true s.tail else .ok false s := by
  rw [eat, bind_of_ok (peek_of_token h)]
  split
  · rw [bind_of_ok (next_of_token h), pure_apply]
  · rw [pure_apply]

theorem eat_of_error {kind : TokenKind} {s : Stream} {e : LexicalError} (h : s.head = .error e) :
    eat kind s = .error (.ofLexical e) s := by
  rw [eat, bind_of_error (peek_of_error h)]

theorem eat_eq_true {kind : TokenKind} {s rest : Stream} :
    eat kind s = .ok true rest ↔ ∃ t, s.head = .token t ∧ t.kind = kind ∧ rest = s.tail := by
  cases h : s.head with
  | token t =>
    rw [eat_of_token h]
    by_cases ht : t.kind = kind
    · simp [ht, eq_comm]
    · simp [ht]
  | error e => simp [eat_of_error h]

theorem eat_eq_false {kind : TokenKind} {s rest : Stream} :
    eat kind s = .ok false rest ↔ ∃ t, s.head = .token t ∧ t.kind ≠ kind ∧ rest = s := by
  cases h : s.head with
  | token t =>
    rw [eat_of_token h]
    by_cases ht : t.kind = kind
    · simp [ht]
    · simp only [ht, if_false, Reply.ok.injEq, true_and, Item.token.injEq]
      constructor
      · rintro rfl
        exact ⟨t, rfl, ht, rfl⟩
      · rintro ⟨_, rfl, -, rfl⟩
        rfl
  | error e => simp [eat_of_error h]

theorem expect_of_token {kind : TokenKind} {s : Stream} {t : Token} (h : s.head = .token t) :
    expect kind s =
      if t.kind = kind then .ok t s.tail
      else .error (.atToken (.unexpectedToken t.kind kind) t) s.tail := by
  rw [expect, bind_of_ok (next_of_token h)]
  split
  · rw [pure_apply]
  · rfl

theorem expect_of_error {kind : TokenKind} {s : Stream} {e : LexicalError}
    (h : s.head = .error e) : expect kind s = .error (.ofLexical e) s.tail := by
  rw [expect, bind_of_error (next_of_error h)]

theorem expect_eq_ok {kind : TokenKind} {s rest : Stream} {t : Token} :
    expect kind s = .ok t rest ↔ s.head = .token t ∧ t.kind = kind ∧ rest = s.tail := by
  cases h : s.head with
  | token u =>
    rw [expect_of_token h]
    by_cases hu : u.kind = kind
    · simp only [hu, if_true, Reply.ok.injEq, Item.token.injEq]
      constructor
      · rintro ⟨rfl, rfl⟩
        exact ⟨rfl, hu, rfl⟩
      · rintro ⟨rfl, -, rfl⟩
        exact ⟨rfl, rfl⟩
    · simp only [hu, if_false, reduceCtorEq, false_iff, Item.token.injEq]
      rintro ⟨rfl, hk, -⟩
      exact hu hk
  | error e => simp [expect_of_error h]

theorem skipNewlines_of_token {s : Stream} {t : Token} (h : s.dropNewlines.head = .token t) :
    skipNewlines s = .ok () s.dropNewlines := by
  change (do let _ ← peek : Parser Unit) s.dropNewlines = _
  rw [bind_of_ok (peek_of_token h), pure_apply]

theorem skipNewlines_of_error {s : Stream} {e : LexicalError}
    (h : s.dropNewlines.head = .error e) :
    skipNewlines s = .error (.ofLexical e) s.dropNewlines := by
  change (do let _ ← peek : Parser Unit) s.dropNewlines = _
  rw [bind_of_error (peek_of_error h)]

theorem skipNewlines_eq_ok {s rest : Stream} :
    skipNewlines s = .ok () rest ↔ (∃ t, rest.head = .token t) ∧ rest = s.dropNewlines := by
  cases h : s.dropNewlines.head with
  | token t =>
    rw [skipNewlines_of_token h]
    constructor
    · rintro ⟨⟩
      exact ⟨⟨t, h⟩, rfl⟩
    · rintro ⟨-, rfl⟩
      rfl
  | error e =>
    rw [skipNewlines_of_error h]
    simp only [reduceCtorEq, false_iff]
    rintro ⟨⟨t, ht⟩, rfl⟩
    simp [h] at ht

theorem terminator_of_token {s : Stream} {t : Token} (h : s.head = .token t) :
    terminator s =
      if t.kind = .endOfFile then .ok () s
      else if t.kind = .newline then .ok () s.tail
      else .error (.atToken (.unexpectedToken t.kind .newline) t) s := by
  rw [terminator, bind_of_ok (peek_of_token h)]
  cases t.kind
  case newline => exact bind_of_ok (next_of_token h)
  all_goals rfl

theorem terminator_of_error {s : Stream} {e : LexicalError} (h : s.head = .error e) :
    terminator s = .error (.ofLexical e) s := by
  rw [terminator, bind_of_error (peek_of_error h)]

/-- The end of a statement is a newline, which is taken, or the end of the file, which stays. -/
theorem terminator_eq_ok {s rest : Stream} :
    terminator s = .ok () rest ↔
      ∃ t, s.head = .token t ∧
        (t.kind = .newline ∧ rest = s.tail ∨ t.kind = .endOfFile ∧ rest = s) := by
  cases h : s.head with
  | token t =>
    rw [terminator_of_token h]
    by_cases hfile : t.kind = .endOfFile
    · simp [hfile, eq_comm]
    · by_cases hline : t.kind = .newline
      · simp [hline, eq_comm]
      · simp [hfile, hline]
  | error e => simp [terminator_of_error h]

/-! ## How much is taken -/

/-- Whenever the parser succeeds, it has taken at least so many items. -/
def Consumes (k : Nat) (p : Parser α) : Prop :=
  ∀ s a rest, p s = .ok a rest → rest.items.length + k ≤ s.items.length

namespace Consumes

variable {j k : Nat} {p : Parser α} {f : α → Parser β}

theorem weaken (h : Consumes k p) (hj : j ≤ k) : Consumes j p := by
  intro s a rest hp
  have := h s a rest hp
  omega

theorem pure (a : α) : Consumes 0 (Pure.pure a : Parser α) := by
  intro s b rest h
  obtain ⟨-, rfl⟩ := pure_eq_ok.1 h
  exact Nat.le_refl _

theorem fail (kind : ParseErrorKind) (t : Token) : Consumes k (Parser.fail kind t : Parser α) :=
  fun _ _ _ h => absurd h fail_ne_ok

theorem exhausted : Consumes k (Parser.exhausted : Parser α) := by
  intro s a rest h
  simp [Parser.exhausted] at h

theorem bind (hp : Consumes j p) (hf : ∀ a, Consumes k (f a)) : Consumes (j + k) (p >>= f) := by
  intro s b rest h
  obtain ⟨a, mid, ha, hb⟩ := bind_eq_ok.1 h
  have h₁ := hp s a mid ha
  have h₂ := hf a mid b rest hb
  omega

/-- What comes after a token has been looked at takes as much as the whole, and finds that token
    in front of it. -/
theorem peek_bind {f : Token → Parser β}
    (hf : ∀ s t, s.head = .token t → ∀ b rest, f t s = .ok b rest →
      rest.items.length + k ≤ s.items.length) : Consumes k (peek >>= f) := by
  intro s b rest h
  obtain ⟨t, mid, ht, hb⟩ := bind_eq_ok.1 h
  obtain ⟨hhead, rfl⟩ := peek_eq_ok.1 ht
  exact hf mid t hhead b rest hb

/-- Taking a token takes an item, unless it is the end of the file. -/
theorem next_bind {f : Token → Parser β}
    (hf : ∀ t, t.kind ≠ .endOfFile → Consumes k (f t))
    (hend : ∀ t, t.kind = .endOfFile → Consumes (k + 1) (f t)) :
    Consumes (k + 1) (next >>= f) := by
  intro s b rest h
  obtain ⟨t, mid, ht, hb⟩ := bind_eq_ok.1 h
  obtain ⟨hhead, rfl⟩ := next_eq_ok.1 ht
  by_cases hk : t.kind = .endOfFile
  · have := hend t hk _ b rest hb
    have := s.length_tail_le
    omega
  · have := hf t hk _ b rest hb
    have := Stream.length_tail_of_head hhead hk
    omega

theorem next : Consumes 0 next := by
  intro s t rest h
  obtain ⟨-, rfl⟩ := next_eq_ok.1 h
  exact s.length_tail_le

theorem eat (kind : TokenKind) : Consumes 0 (eat kind) := by
  intro s b rest h
  cases b with
  | true =>
    obtain ⟨t, -, -, rfl⟩ := eat_eq_true.1 h
    exact s.length_tail_le
  | false =>
    obtain ⟨t, -, -, rfl⟩ := eat_eq_false.1 h
    exact Nat.le_refl _

theorem expect (kind : TokenKind) : Consumes 0 (expect kind) := by
  intro s t rest h
  obtain ⟨-, -, rfl⟩ := expect_eq_ok.1 h
  exact s.length_tail_le

theorem skipNewlines : Consumes 0 skipNewlines := by
  intro s _ rest h
  obtain ⟨-, rfl⟩ := skipNewlines_eq_ok.1 h
  exact s.length_dropNewlines_le

theorem terminator : Consumes 0 terminator := by
  intro s _ rest h
  obtain ⟨t, -, ⟨-, rfl⟩ | ⟨-, rfl⟩⟩ := terminator_eq_ok.1 h
  · exact s.length_tail_le
  · exact Nat.le_refl _

end Consumes

end Parser

end StageScript
