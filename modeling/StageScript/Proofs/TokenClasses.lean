import StageScript.Proofs.Numbers
import StageScript.Proofs.Quoting

set_option autoImplicit false

/-! # How far the items of a script go

Every class of items is decided by the character it starts with, and takes as much of what stands
behind it as it can: `Scanner.Munched` says of each class what its characters are, and that the text
goes on with none that could be one of them. A string is the exception, which is as short as its
marks allow. Main statement: `Stream.munched`, every item of a script is chosen like this. -/

namespace StageScript.Scanner

/-! ## Marks that balance -/

/-- As many marks are closed as are opened. -/
def Balanced (w : List Char) : Prop := w.count '「' = w.count '」'

theorem quote_not_balanced {q : List Char} (h : q.count '」' < 1 + q.count '「') :
    ¬Balanced ('「' :: q) := by
  intro hbalanced
  rw [Balanced, List.count_cons_self, List.count_cons_of_ne (by decide)] at hbalanced
  omega

/-- Where the mark that closes a string is missing, no part of the line closes it. -/
theorem lt_of_closing?_eq_none {depth : Nat} {cs q : List Char}
    (h : closing? (depth + 1) cs = none) (hq : q <+: cs) (hline : '\n' ∉ q) :
    q.count '」' < depth + 1 + q.count '「' := by
  induction cs generalizing depth q with
  | nil =>
    obtain rfl := List.prefix_nil.1 hq
    simp
  | cons c cs ih =>
    rcases List.prefix_cons_iff.1 hq with rfl | ⟨q, rfl, hprefix⟩
    · simp
    obtain ⟨hc, hq'⟩ := not_or.1 (List.mem_cons.not.1 hline)
    rw [closing?] at h
    split at h
    · next hnewline => exact absurd (by simpa using hnewline) (Ne.symm hc)
    split at h
    · next hopen =>
      obtain rfl : c = '「' := by simpa using hopen
      have := ih (Option.map_eq_none_iff.1 h) hprefix hq'
      rw [List.count_cons_self, List.count_cons_of_ne (by decide)]
      omega
    split at h
    · next hclose =>
      obtain rfl : c = '」' := by simpa using hclose
      split at h
      · cases h
      · next hdepth =>
        obtain ⟨d, rfl⟩ : ∃ d, depth = d + 1 := ⟨depth - 1, by omega⟩
        have := ih (Option.map_eq_none_iff.1 h) hprefix hq'
        rw [List.count_cons_self, List.count_cons_of_ne (by decide)]
        omega
    · next hopen hclose =>
      have := ih (Option.map_eq_none_iff.1 h) hprefix hq'
      rw [List.count_cons_of_ne (by simpa using hclose),
        List.count_cons_of_ne (by simpa using hopen)]
      exact this

/-- The characters are the first of the text in which the marks balance. -/
structure FirstBalanced (w text : List Char) : Prop where
  first : w <+: text
  ne_nil : w ≠ []
  balanced : Balanced w
  shortest : ∀ p, p <+: text → p ≠ [] → Balanced p → w.length ≤ p.length

theorem firstBalanced_marked {t : List Char} (ht : Text.Quotable t) (after : List Char) :
    FirstBalanced ('「' :: (t ++ ['」'])) ('「' :: (t ++ ['」']) ++ after) where
  first := List.prefix_append _ _
  ne_nil := List.cons_ne_nil _ _
  balanced := by
    simp [Balanced, ht.total]
  shortest p hp hne hbalanced := by
    by_contra hlt
    obtain ⟨q, rfl⟩ : ∃ q, p = '「' :: q := by
      rcases List.prefix_cons_iff.1 hp with rfl | ⟨q, rfl, -⟩
      · exact absurd rfl hne
      · exact ⟨q, rfl⟩
    have hq : q <+: t := by
      have hq : q <+: t ++ (['」'] ++ after) := by
        simpa using hp
      refine List.prefix_of_prefix_length_le hq (List.prefix_append _ _) ?_
      simp only [List.length_cons, List.length_append, List.length_nil] at hlt
      omega
    have := ht.prefixes q hq
    exact quote_not_balanced (by omega) hbalanced

/-! ## Maximal munch -/

/-- Characters that a word can be made of, no digit first. -/
structure IsWord (w : List Char) : Prop where
  ne_nil : w ≠ []
  chars : ∀ c ∈ w, isWordChar c = true
  start : ∀ c ∈ w.head?, Text.isDigit c = false

/-- How the characters of an item are chosen, when the given ones stand behind it. -/
structure Munched (s : Shape) (lexeme after : List Char) : Prop where
  /-- A number goes on as long as there are digits, and takes a fraction if there is one. -/
  number : s = .token .number → IsNumber lexeme ∧ (∀ c ∈ after.head?, Text.isDigit c = false) ∧
    ((∀ c ∈ lexeme, Text.isDigit c = true) → ¬StartsFraction after)
  /-- A word goes on as long as it can, and is a keyword only as a whole. -/
  word : ∀ kind ∈ wordKinds, s = .token kind →
    IsWord lexeme ∧ (∀ c ∈ after.head?, isWordChar c = false) ∧
      (kind = .conjunction ↔ String.ofList lexeme ∈ ["かつ", "and"]) ∧
      (kind = .disjunction ↔ String.ofList lexeme ∈ ["または", "or"])
  /-- A sign that an item starts with takes one equal sign, if there is one right behind it. -/
  sign : ∀ c ∈ lexeme.head?, ∀ plain kind, Sign c plain kind →
    (∃ e, isEqualSign e = true ∧ lexeme = [c, e] ∧ s = .token kind) ∨
      lexeme = [c] ∧ (∀ e ∈ after.head?, isEqualSign e = false) ∧ s = plain
  /-- A string ends with the first mark that balances those before it, on its line. -/
  string : s = .token .string →
    lexeme.head? = some '「' ∧ FirstBalanced lexeme (lexeme ++ after) ∧ '\n' ∉ lexeme
  /-- A string is unclosed when no characters of its line balance. -/
  unclosed : s = .error .unclosedString ↔ lexeme.head? = some '「' ∧
    ∀ p, p <+: lexeme ++ after → p ≠ [] → '\n' ∉ p → ¬Balanced p
  /-- An unclosed string goes up to the end of its line. -/
  line : s = .error .unclosedString → '\n' ∉ lexeme ∧ ∀ c ∈ after.head?, c = '\n'

theorem ofWord_eq_conjunction {word : String} :
    TokenKind.ofWord word = .conjunction ↔ word ∈ ["かつ", "and"] := by
  rw [TokenKind.ofWord, TokenKind.ofKeyword?]
  split
  · next h => simpa using h
  · next h =>
    have hnot : ¬word ∈ ["かつ", "and"] := by simpa using h
    simp only [hnot, iff_false]
    split <;> simp

theorem ofWord_eq_disjunction {word : String} :
    TokenKind.ofWord word = .disjunction ↔ word ∈ ["または", "or"] := by
  rw [TokenKind.ofWord, TokenKind.ofKeyword?]
  split
  · next h =>
    have h' : word = "かつ" ∨ word = "and" := by simpa using h
    rcases h' with rfl | rfl <;> decide
  · next h =>
    split
    · next h' => simpa using h'
    · next h' =>
      have hnot : ¬word ∈ ["または", "or"] := by simpa using h'
      simp [hnot]

variable {c : Char} {cs after : List Char} {s : Shape}

theorem word_of_shape {kind : TokenKind} (hkind : kind ∈ wordKinds)
    (h : shape c (cs ++ after) = (.token kind, cs.length)) :
    IsWord (c :: cs) ∧ (∀ d ∈ after.head?, isWordChar d = false) ∧
      TokenKind.ofWord (String.ofList (c :: cs)) = kind := by
  generalize hn : cs.length = n at h
  cases starts_of_shape h with
  | mark hc => cases kind <;> simp [wordKinds, marks] at hkind hc
  | sign hc => cases hc <;> simp [wordKinds] at hkind
  | signEqual hc => cases hc <;> simp [wordKinds] at hkind
  | string | number => simp [wordKinds] at hkind
  | word hc hdigit hword =>
    obtain ⟨hcs, hafter⟩ := length_takeWhile_append_iff.1 hn.symm
    rw [takeWhile_append_of_head hcs hafter] at hword
    refine ⟨⟨List.cons_ne_nil _ _, List.forall_mem_cons.2 ⟨hc, hcs⟩, ?_⟩, hafter, hword⟩
    rintro d ⟨⟩
    exact hdigit

theorem quote_of_shape (h : shape c (cs ++ after) = (.error .unclosedString, cs.length)) :
    c = '「' ∧ closing? 1 (cs ++ after) = none ∧ cs.length = restOfLine (cs ++ after) := by
  generalize hn : cs.length = n at h
  cases starts_of_shape h with
  | sign hc => cases hc
  | unclosed hc hclose => exact ⟨hc, hclose, rfl⟩

theorem sign_of_shape {plain : Shape} {kind : TokenKind} (hc : Sign c plain kind)
    (h : shape c (cs ++ after) = (s, cs.length)) :
    (∃ e, isEqualSign e = true ∧ cs = [e] ∧ s = .token kind) ∨
      cs = [] ∧ (∀ e ∈ after.head?, isEqualSign e = false) ∧ s = plain := by
  rw [shape_of_sign hc, comparison] at h
  split at h
  · next hequal =>
    obtain ⟨rfl, hlength⟩ := Prod.mk.inj h
    obtain ⟨e, rfl⟩ := List.length_eq_one_iff.1 hlength.symm
    refine .inl ⟨e, ?_, rfl, rfl⟩
    by_contra he
    simp [equalLength, he] at hequal
  · next hequal =>
    obtain ⟨rfl, hlength⟩ := Prod.mk.inj h
    obtain rfl := List.length_eq_zero_iff.1 hlength.symm
    refine .inr ⟨rfl, fun e he => ?_, rfl⟩
    obtain ⟨more, rfl⟩ : ∃ more, after = e :: more := by
      cases after with
      | nil => cases he
      | cons d more => exact ⟨more, by rw [← Option.some.inj he]⟩
    by_contra he
    simp [equalLength, he] at hequal

/-- What is scanned at a character is chosen as it has to be. -/
theorem munched_of_shape (h : shape c (cs ++ after) = (s, cs.length)) :
    Munched s (c :: cs) after where
  number hs := number_of_shape (hs ▸ h)
  word kind hkind hs := by
    obtain ⟨hword, hafter, rfl⟩ := word_of_shape hkind (hs ▸ h)
    exact ⟨hword, hafter, ofWord_eq_conjunction, ofWord_eq_disjunction⟩
  sign d hd plain kind hsign := by
    obtain rfl := Option.some.inj hd
    rcases sign_of_shape hsign h with ⟨e, he, rfl, hs⟩ | ⟨rfl, hafter, hs⟩
    · exact .inl ⟨e, he, rfl, hs⟩
    · exact .inr ⟨rfl, hafter, hs⟩
  string hs := by
    obtain ⟨t, heq, ht⟩ := string_of_shape (hs ▸ h)
    rw [heq]
    exact ⟨rfl, firstBalanced_marked ht after, by simpa using ht.line⟩
  unclosed := by
    constructor
    · rintro rfl
      obtain ⟨rfl, hclose, -⟩ := quote_of_shape h
      refine ⟨rfl, fun p hp hne hline => ?_⟩
      rcases List.prefix_cons_iff.1 hp with rfl | ⟨q, rfl, hq⟩
      · exact absurd rfl hne
      · have hq' : '\n' ∉ q := fun hmem => hline (List.mem_cons_of_mem _ hmem)
        exact quote_not_balanced (lt_of_closing?_eq_none hclose hq hq')
    · rintro ⟨hquote, hnone⟩
      obtain rfl := Option.some.inj hquote
      cases hclose : closing? 1 (cs ++ after) with
      | none =>
        rw [shape_quote, hclose] at h
        exact (Prod.mk.inj h).1.symm
      | some n =>
        obtain ⟨t, rest, heq, -, ht⟩ := closing?_eq_some.1 hclose
        have ht := Text.settles_zero.1 ht
        have hfirst := firstBalanced_marked ht rest
        refine absurd hfirst.balanced (hnone _ ?_ hfirst.ne_nil (by simpa using ht.line))
        simp [heq]
  line := by
    rintro rfl
    obtain ⟨rfl, -, hlength⟩ := quote_of_shape h
    obtain ⟨hcs, hafter⟩ := length_takeWhile_append_iff.1 hlength.symm
    refine ⟨?_, fun d hd => by simpa using hafter d hd⟩
    have hline : '\n' ∉ cs := fun hmem => by simpa using hcs _ hmem
    simp [hline]

/-- The end of the file has no characters. -/
theorem munched_endOfFile : Munched (.token .endOfFile) [] [] where
  number := by simp
  word := by simp [wordKinds]
  sign := by simp
  string := by simp
  unclosed := by simp
  line := by simp

end StageScript.Scanner

/-! ## Streams -/

namespace StageScript

open Scanner

/-- What is scanned at a character of a text stands in it as it has to. -/
theorem Scanner.munched_of_mem {cs : List Char} {x : Item} (hx : x ∈ itemsAt 0 Place.start cs) :
    ∃ before lexeme after, cs = before ++ lexeme ++ after ∧
      x.span = Span.between (Text.byteCount before)
        (Text.byteCount before + Text.byteCount lexeme) ∧
      (∀ t, x = .token t → t.text = String.ofList lexeme) ∧ Munched x.shape lexeme after := by
  obtain ⟨before, c, rest, rfl, hitem⟩ := exists_shape_of_mem hx
  have hle := shape_le c rest
  cases hshape : shape c rest with
  | mk s n =>
    rw [hshape] at hitem hle
    have hlength : (rest.take n).length = n := List.length_take_of_le hle
    refine ⟨before, c :: rest.take n, rest.drop n, by simp, ?_, Shape.text_of_item? hitem, ?_⟩
    · rw [Shape.span_of_item? hitem, Place.afterAll_eq, Place.start, Nat.zero_add]
    · rw [Shape.shape_of_item? hitem]
      refine munched_of_shape ?_
      rw [List.take_append_drop, hlength, hshape]

/-- **Every item is as long as it has to be.** The span of an item is that of some characters, and
    these are chosen as its class asks for, before the characters that stand behind them. -/
theorem Stream.munched {source : String} (small : source.utf8ByteSize < 4294967296) {x : Item}
    (hx : x ∈ (ofString source).toList) :
    ∃ before lexeme after, source.toList = before ++ lexeme ++ after ∧
      x.span.first = Text.byteCount before ∧
      x.span.stop = Text.byteCount before + Text.byteCount lexeme ∧
      (∀ t, x = .token t → t.text = String.ofList lexeme) ∧ Munched x.shape lexeme after := by
  rcases List.mem_append.1 hx with hx | hx
  · obtain ⟨before, lexeme, after, heq, hspan, htext, hmunched⟩ := munched_of_mem hx
    rw [← Text.byteCount_toList, heq, Text.byteCount_append, Text.byteCount_append] at small
    refine ⟨before, lexeme, after, heq, ?_, ?_, htext, hmunched⟩
    · rw [hspan, Span.first_between, Nat.mod_eq_of_lt (by omega)]
    · rw [hspan, Span.stop_between (by omega) (by omega)]
  · obtain rfl := List.mem_singleton.1 hx
    obtain ⟨hfirst, hstop⟩ := bounds_finish small
    refine ⟨source.toList, [], [], by simp, hfirst, hstop, ?_, munched_endOfFile⟩
    rintro t ⟨⟩
    rfl

/-- The string behind words, points, equal signs and a balanced string is not closed. -/
theorem Stream.munched_unclosed :
    "かつ丼 10. 1.5.2 ＝＝＝ !a 「「」」「「」\n".utf8ByteSize < 4294967296 ∧
      Item.error ⟨.unclosedString, ⟨45, 9⟩, 1⟩ ∈
        (ofString "かつ丼 10. 1.5.2 ＝＝＝ !a 「「」」「「」\n").toList ∧
      ∃ before lexeme after,
        "かつ丼 10. 1.5.2 ＝＝＝ !a 「「」」「「」\n".toList = before ++ lexeme ++ after ∧
          45 = Text.byteCount before ∧ 54 = Text.byteCount before + Text.byteCount lexeme ∧
          (∀ t : Token, Item.error ⟨.unclosedString, ⟨45, 9⟩, 1⟩ = .token t →
            t.text = String.ofList lexeme) ∧
          Munched (.error .unclosedString) lexeme after :=
  ⟨by decide +kernel, by decide +kernel,
    @munched _ (by decide +kernel) (.error ⟨.unclosedString, ⟨45, 9⟩, 1⟩) (by decide +kernel)⟩

end StageScript
