import StageScript.Proofs.Likeness
import StageScript.Proofs.Numbers
import StageScript.Proofs.Tiling
import StageScript.Proofs.Writing
import StageScript.Syntax.SExpression

set_option autoImplicit false

/-! # Narrow forms

Some signs, the digits, the decimal point and a blank have a full-width and an ASCII form, and it
makes no difference which of the two a script uses: `shape_narrow` follows the scanner from a text
to the one in narrow forms, and the parser reads both alike as long as no word is spelled with a
character that changes. Main statement: `Program.parse_narrow`. -/

namespace StageScript

/-! ## Characters -/

namespace Text

/-- The full-width forms with their ASCII forms. -/
def narrowForms : List (Char × Char) :=
  [('（', '('), ('）', ')'), ('：', ':'), ('＝', '='), ('！', '!'), ('＜', '<'), ('＞', '>'), ('＃', '#'),
    ('\u3000', ' '), ('０', '0'), ('１', '1'), ('２', '2'), ('３', '3'), ('４', '4'), ('５', '5'),
    ('６', '6'), ('７', '7'), ('８', '8'), ('９', '9'), ('．', '.'), ('＋', '+'), ('－', '-')]

/-- The ASCII form of a full-width form, and any other character itself. -/
def narrow (c : Char) : Char := (narrowForms.lookup c).getD c

/-- What does not tell the two forms apart is the same of a character and its narrow form. -/
theorem apply_narrow {α : Type} (g : Char → α) (h : ∀ p ∈ narrowForms, g p.1 = g p.2) (c : Char) :
    g c = g (narrow c) := by
  rw [narrow]
  cases hc : narrowForms.lookup c with
  | none => rfl
  | some d =>
    obtain ⟨before, after, heq, -⟩ := List.lookup_eq_some_iff.1 hc
    exact h (c, d) (by rw [heq]; simp)

/-- Only itself becomes a character that is in neither form. -/
theorem narrow_eq_iff {k : Char} (hk : ∀ p ∈ narrowForms, p.1 ≠ k ∧ p.2 ≠ k) (c : Char) :
    narrow c = k ↔ c = k := by
  have h : (c = k) = (narrow c = k) :=
    apply_narrow (· = k) (fun p hp => by simp [(hk p hp).1, (hk p hp).2]) c
  rw [h]

theorem utf8Size_narrow_le (c : Char) : (narrow c).utf8Size ≤ c.utf8Size := by
  rw [narrow]
  cases hc : narrowForms.lookup c with
  | none => exact Nat.le_refl _
  | some d =>
    obtain ⟨before, after, heq, -⟩ := List.lookup_eq_some_iff.1 hc
    have h : ∀ p ∈ narrowForms, p.2.utf8Size ≤ p.1.utf8Size := by decide
    exact h (c, d) (by rw [heq]; simp)

theorem byteCount_narrow_le (cs : List Char) : byteCount (cs.map narrow) ≤ byteCount cs := by
  induction cs with
  | nil => exact Nat.le_refl _
  | cons c cs ih =>
    rw [List.map_cons, byteCount_cons, byteCount_cons]
    exact Nat.add_le_add (utf8Size_narrow_le c) ih

end Text

namespace Scanner

open Text (narrow narrowForms apply_narrow narrow_eq_iff)

/-! ## Lengths -/

theorem takeWhile_narrow {p : Char → Bool} (hp : ∀ q ∈ narrowForms, p q.1 = p q.2)
    (cs : List Char) : (cs.map narrow).takeWhile p = (cs.takeWhile p).map narrow := by
  rw [List.takeWhile_map, show p ∘ narrow = p from funext fun c => (apply_narrow p hp c).symm]

theorem dropWhile_narrow {p : Char → Bool} (hp : ∀ q ∈ narrowForms, p q.1 = p q.2)
    (cs : List Char) : (cs.map narrow).dropWhile p = (cs.dropWhile p).map narrow := by
  rw [List.dropWhile_map, show p ∘ narrow = p from funext fun c => (apply_narrow p hp c).symm]

theorem isDigit_narrowForms : ∀ p ∈ narrowForms, Text.isDigit p.1 = Text.isDigit p.2 := by decide

theorem isWordChar_narrowForms : ∀ p ∈ narrowForms, isWordChar p.1 = isWordChar p.2 := by decide

theorem restOfLine_narrow (cs : List Char) : restOfLine (cs.map narrow) = restOfLine cs := by
  rw [restOfLine, takeWhile_narrow (by decide), List.length_map, restOfLine]

theorem equalLength_narrow (cs : List Char) : equalLength (cs.map narrow) = equalLength cs := by
  cases cs with
  | nil => rfl
  | cons c cs =>
    rw [List.map_cons, equalLength, equalLength, ← apply_narrow isEqualSign (by decide)]

theorem closing?_narrow (depth : Nat) (cs : List Char) :
    closing? depth (cs.map narrow) = closing? depth cs := by
  induction cs generalizing depth with
  | nil => rfl
  | cons c cs ih =>
    have hline : (c == '\n') = (narrow c == '\n') := apply_narrow (· == '\n') (by decide) c
    have hopen : (c == '「') = (narrow c == '「') := apply_narrow (· == '「') (by decide) c
    have hclose : (c == '」') = (narrow c == '」') := apply_narrow (· == '」') (by decide) c
    simp only [List.map_cons, closing?, ih, hline, hopen, hclose]

theorem fractionLength_narrow (cs : List Char) :
    fractionLength (cs.map narrow) = fractionLength cs := by
  match cs with
  | [] => rfl
  | [c] => rfl
  | point :: digit :: cs =>
    have hpoint := apply_narrow Text.isPoint (by decide) point
    have hdigit := apply_narrow Text.isDigit isDigit_narrowForms digit
    simp only [List.map_cons, fractionLength, hpoint, hdigit,
      takeWhile_narrow isDigit_narrowForms, List.length_map]

theorem numberLength_narrow (cs : List Char) : numberLength (cs.map narrow) = numberLength cs := by
  rw [numberLength, takeWhile_narrow isDigit_narrowForms, dropWhile_narrow isDigit_narrowForms,
    fractionLength_narrow, List.length_map, numberLength]

/-! ## Words -/

/-- A text without characters of either form is spelled in one way only. -/
theorem map_narrow_eq_iff {ks : List Char} (hks : ∀ p ∈ narrowForms, p.1 ∉ ks ∧ p.2 ∉ ks)
    (w : List Char) : w.map narrow = ks ↔ w = ks := by
  induction w generalizing ks with
  | nil => simp
  | cons c w ih =>
    cases ks with
    | nil => simp
    | cons k ks =>
      simp only [List.mem_cons, not_or] at hks
      have hk : ∀ p ∈ narrowForms, p.1 ≠ k ∧ p.2 ≠ k :=
        fun p hp => ⟨(hks p hp).1.1, (hks p hp).2.1⟩
      have htail : ∀ p ∈ narrowForms, p.1 ∉ ks ∧ p.2 ∉ ks :=
        fun p hp => ⟨(hks p hp).1.2, (hks p hp).2.2⟩
      rw [List.map_cons, List.cons.injEq, List.cons.injEq, narrow_eq_iff hk, ih htail]

/-- No keyword has a character of either form. -/
theorem ofWord_narrow (w : List Char) :
    TokenKind.ofWord (String.ofList (w.map narrow)) = TokenKind.ofWord (String.ofList w) := by
  have hword : ∀ word : String, (∀ p ∈ narrowForms, p.1 ∉ word.toList ∧ p.2 ∉ word.toList) →
      (String.ofList (w.map narrow) == word) = (String.ofList w == word) := by
    intro word h
    rw [Bool.eq_iff_iff, beq_iff_eq, beq_iff_eq, ← String.toList_inj, ← String.toList_inj,
      String.toList_ofList, String.toList_ofList]
    exact map_narrow_eq_iff h w
  simp only [TokenKind.ofWord, TokenKind.ofKeyword?, hword "かつ" (by decide),
    hword "and" (by decide), hword "または" (by decide), hword "or" (by decide)]

end Scanner

/-! ## Shapes -/

/-- The kind of error with the narrow form of a character that it names. -/
def LexicalErrorKind.narrow : LexicalErrorKind → LexicalErrorKind
  | unrecognized c => unrecognized (Text.narrow c)
  | unclosedString => unclosedString

namespace Scanner

open Text (narrow narrowForms apply_narrow)

def Shape.narrow : Shape → Shape
  | .gap => .gap
  | .token kind => .token kind
  | .error kind => .error kind.narrow

/-- What starts at a narrow form is what starts at the character, and as long. -/
def Narrows (x x' : Shape × Nat) : Prop := x' = (x.1.narrow, x.2)

/-- A case split on what does not tell the two forms apart. -/
theorem Narrows.ite (b : Char → Bool) (hb : ∀ p ∈ narrowForms, b p.1 = b p.2) {c : Char}
    {x x' y y' : Shape × Nat} (hx : Narrows x x') (hy : Narrows y y') :
    Narrows (if b c then x else y) (if b (narrow c) then x' else y') := by
  rw [← apply_narrow b hb c]
  cases b c
  · exact hy
  · exact hx

theorem Narrows.comparison (plain withEqual : Shape) (rest : List Char) :
    Narrows (comparison plain withEqual rest)
      (comparison plain.narrow withEqual.narrow (rest.map narrow)) := by
  unfold Scanner.comparison
  rw [equalLength_narrow]
  split <;> rfl

theorem shape_narrow (c : Char) (rest : List Char) :
    Narrows (shape c rest) (shape (narrow c) (rest.map narrow)) := by
  unfold shape
  refine .ite (· == '\n') (by decide) rfl ?_
  refine .ite isCommentMark (by decide) (by rw [restOfLine_narrow]; rfl) ?_
  refine .ite isGap (by decide) rfl ?_
  refine .ite (fun c => c == '(' || c == '（') (by decide) rfl ?_
  refine .ite (fun c => c == ')' || c == '）') (by decide) rfl ?_
  refine .ite (fun c => c == ':' || c == '：') (by decide) rfl ?_
  refine .ite (· == '※') (by decide) rfl ?_
  refine .ite (· == '→') (by decide) rfl ?_
  refine .ite (· == '≠') (by decide) rfl ?_
  refine .ite (· == '≤') (by decide) rfl ?_
  refine .ite (· == '≥') (by decide) rfl ?_
  refine .ite isEqualSign (by decide) (.comparison _ _ rest) ?_
  refine .ite (fun c => c == '!' || c == '！') (by decide) (.comparison _ _ rest) ?_
  refine .ite (fun c => c == '<' || c == '＜') (by decide) (.comparison _ _ rest) ?_
  refine .ite (fun c => c == '>' || c == '＞') (by decide) (.comparison _ _ rest) ?_
  refine .ite (· == '「') (by decide) ?_ ?_
  · rw [closing?_narrow, restOfLine_narrow]
    cases closing? 1 rest <;> rfl
  refine .ite Text.isDigit (by decide) (by rw [numberLength_narrow]; rfl) ?_
  refine .ite isWordChar (by decide) ?_ rfl
  dsimp only
  rw [takeWhile_narrow isWordChar_narrowForms, ← List.map_cons, ofWord_narrow, List.length_map]
  rfl

end Scanner

/-! ## Items -/

/-- The items stand behind `before` and are written as `lexeme`, the second one both times in narrow
    forms, and they are scanned as the same thing. -/
structure Item.NarrowsAt (before lexeme : List Char) (x x' : Item) : Prop where
  shape : x'.shape = x.shape.narrow
  line : x'.line = x.line
  span : x.span = Span.between (Text.byteCount before)
    (Text.byteCount before + Text.byteCount lexeme)
  span' : x'.span = Span.between (Text.byteCount (before.map Text.narrow))
    (Text.byteCount (before.map Text.narrow) + Text.byteCount (lexeme.map Text.narrow))
  text : ∀ t, x = .token t → t.text = String.ofList lexeme
  text' : ∀ t, x' = .token t → t.text = String.ofList (lexeme.map Text.narrow)

/-- The items belong to the same characters of a text and of that text in narrow forms. -/
def Item.NarrowsIn (text : List Char) (x x' : Item) : Prop :=
  ∃ before lexeme after, text = before ++ lexeme ++ after ∧ x.NarrowsAt before lexeme x'

namespace Scanner

open Text (narrow)

/-- The place behind some characters. -/
def placeBehind (before : List Char) (line : Nat) : Place := ⟨Text.byteCount before, line⟩

theorem placeBehind_after (before : List Char) (line : Nat) (c : Char) :
    (placeBehind before line).after c =
      placeBehind (before ++ [c]) (if c == '\n' then line + 1 else line) := by
  rw [placeBehind, Place.after, placeBehind, Text.byteCount_append]
  simp

/-- The items that the same characters make up in both forms. -/
theorem Shape.narrowsAt_of_item? {s : Shape} {before lexeme : List Char} {line : Nat} {x : Item}
    (h : s.item? (placeBehind before line) lexeme = some x) :
    ∃ x', s.narrow.item? (placeBehind (before.map Text.narrow) line) (lexeme.map Text.narrow) =
      some x' ∧ x.NarrowsAt before lexeme x' := by
  cases s with
  | gap => cases h
  | token kind =>
    cases h
    refine ⟨_, rfl, rfl, rfl, rfl, rfl, ?_, ?_⟩
    · rintro t ⟨⟩
      rfl
    · rintro t ⟨⟩
      rfl
  | error kind =>
    cases h
    exact ⟨_, rfl, rfl, rfl, rfl, rfl, (by rintro t ⟨⟩), by rintro t ⟨⟩⟩

theorem itemsAt_narrow (skip : Nat) (before cs : List Char) (line : Nat) :
    List.Forall₂ (Item.NarrowsIn (before ++ cs)) (itemsAt skip (placeBehind before line) cs)
      (itemsAt skip (placeBehind (before.map narrow) line) (cs.map narrow)) := by
  induction cs generalizing skip before line with
  | nil => cases skip <;> exact .nil
  | cons c cs ih =>
    have hlater : ∀ skip, List.Forall₂ (Item.NarrowsIn (before ++ c :: cs))
        (itemsAt skip ((placeBehind before line).after c) cs)
        (itemsAt skip ((placeBehind (before.map narrow) line).after (narrow c))
          (cs.map narrow)) := by
      intro skip
      have hline := Text.apply_narrow (· == '\n') (by decide) c
      have h := ih skip (before ++ [c]) (if c == '\n' then line + 1 else line)
      rw [placeBehind_after, placeBehind_after, ← hline]
      simpa using h
    cases skip with
    | succ skip => exact hlater skip
    | zero =>
      have hshape : shape (narrow c) (cs.map narrow) = _ := shape_narrow c cs
      have hlexeme : narrow c :: (cs.map narrow).take (shape c cs).2 =
          (c :: cs.take (shape c cs).2).map narrow := by simp
      rw [List.map_cons, itemsAt, itemsAt, hshape]
      dsimp only
      rw [hlexeme]
      cases hitem :
        (shape c cs).1.item? (placeBehind before line) (c :: cs.take (shape c cs).2) with
      | none =>
        rw [Shape.eq_gap_of_item? hitem]
        exact hlater _
      | some x =>
        obtain ⟨x', hx', hnarrow⟩ := Shape.narrowsAt_of_item? hitem
        rw [hx']
        refine .cons ⟨before, _, cs.drop (shape c cs).2, ?_, hnarrow⟩ (hlater _)
        simp

end Scanner

/-! ## Scripts -/

/-- The items are of one kind up to narrow forms, on one line, and stand at the same characters,
    which are narrow in the second script; and so is the text of a token. -/
structure Item.NarrowForm (text : List Char) (x x' : Item) : Prop where
  shape : x'.shape = x.shape.narrow
  line : x'.line = x.line
  range : x'.span.charRange (text.map Text.narrow) = x.span.charRange text
  lexeme : ∃ lexeme, x.span.slice? text = some lexeme ∧
    x'.span.slice? (text.map Text.narrow) = some (lexeme.map Text.narrow)
  text : ∀ t t', x = .token t → x' = .token t' → t'.text = t.text.map Text.narrow

theorem Item.NarrowsIn.narrowForm {text : List Char} (small : Text.byteCount text < 4294967296)
    {x x' : Item} (h : x.NarrowsIn text x') : x.NarrowForm text x' := by
  obtain ⟨before, lexeme, after, rfl, h⟩ := h
  have hle := Text.byteCount_narrow_le (before ++ lexeme)
  rw [List.map_append, Text.byteCount_append, Text.byteCount_append] at hle
  rw [Text.byteCount_append, Text.byteCount_append] at small
  have hfirst : x.span.first = Text.byteCount before := by
    rw [h.span, Span.first_between, Nat.mod_eq_of_lt (by omega)]
  have hstop : x.span.stop = Text.byteCount before + Text.byteCount lexeme := by
    rw [h.span, Span.stop_between (by omega) (by omega)]
  have hfirst' : x'.span.first = Text.byteCount (before.map Text.narrow) := by
    rw [h.span', Span.first_between, Nat.mod_eq_of_lt (by omega)]
  have hstop' : x'.span.stop = Text.byteCount (before.map Text.narrow) +
      Text.byteCount (lexeme.map Text.narrow) := by
    rw [h.span', Span.stop_between (by omega) (by omega)]
  obtain ⟨hslice, hrange⟩ := Span.slice?_of_bounds after hfirst hstop
  obtain ⟨hslice', hrange'⟩ := Span.slice?_of_bounds (after.map Text.narrow) hfirst' hstop'
  rw [← List.map_append, ← List.map_append] at hslice' hrange'
  rw [List.length_map, List.length_map] at hrange'
  refine ⟨h.shape, h.line, hrange'.trans hrange.symm, ⟨lexeme, hslice, hslice'⟩, ?_⟩
  intro t t' ht ht'
  rw [h.text t ht, h.text' t' ht', ← String.toList_inj]
  simp

theorem Text.count_newline_narrow (cs : List Char) :
    (cs.map narrow).count '\n' = cs.count '\n' := by
  rw [List.count, List.countP_map]
  exact congrArg (List.countP · cs) (funext fun c =>
    (apply_narrow (· == '\n') (by decide) c).symm)

namespace Stream

theorem finish_ofString (source : String) : (ofString source).finish =
    ⟨.endOfFile, Span.between (Text.byteCount source.toList) (Text.byteCount source.toList),
      1 + source.toList.count '\n', ""⟩ := by
  rw [finish, ofString, ofText, Scanner.streamAt, Scanner.Place.afterAll_eq, Scanner.Place.start,
    Nat.zero_add]

/-- The items of a script and of its narrow forms belong together. -/
theorem narrowsIn_items (source : String) :
    List.Forall₂ (Item.NarrowsIn source.toList) (ofString source).items
      (ofString (source.map Text.narrow)).items := by
  have h := Scanner.itemsAt_narrow 0 [] source.toList 1
  rwa [← String.toList_map] at h

theorem narrowsIn_finish (source : String) : Item.NarrowsIn source.toList
    (.token (ofString source).finish) (.token (ofString (source.map Text.narrow)).finish) := by
  rw [finish_ofString, finish_ofString, String.toList_map, Text.count_newline_narrow]
  refine ⟨source.toList, [], [], by simp, rfl, rfl, rfl, rfl, ?_, ?_⟩
  · rintro t ⟨⟩
    rfl
  · rintro t ⟨⟩
    rfl

end Stream

/-! ## Numbers -/

namespace Text

/-- A digit of either width is one of twenty characters. -/
theorem digit_cases {P : Char → Prop}
    (h : ∀ n < 10, P (Char.ofNat (0x30 + n)) ∧ P (Char.ofNat (0xff10 + n))) {c : Char}
    (hc : isDigit c = true) : P c := by
  have hof : ∀ n m : Nat, c.toNat = n + m → Char.ofNat (n + m) = c := by
    intro n m heq
    rw [← heq, Char.ofNat_toNat]
  simp only [isDigit, Bool.or_eq_true, Bool.and_eq_true, decide_eq_true_eq] at hc
  rcases hc with ⟨hle, hge⟩ | ⟨hle, hge⟩
  · have h₁ : 0x30 ≤ c.toNat := hle
    have h₂ : c.toNat ≤ 0x39 := hge
    have hP := (h (c.toNat - 0x30) (by omega)).1
    rwa [hof 0x30 (c.toNat - 0x30) (by omega)] at hP
  · have h₁ : 0xff10 ≤ c.toNat := hle
    have h₂ : c.toNat ≤ 0xff19 := hge
    have hP := (h (c.toNat - 0xff10) (by omega)).2
    rwa [hof 0xff10 (c.toNat - 0xff10) (by omega)] at hP

theorem isAsciiDigit_halfWidth {c : Char} (h : isDigit c = true) :
    Decimal.isAsciiDigit (halfWidth c) = true :=
  digit_cases (P := fun c => Decimal.isAsciiDigit (halfWidth c) = true) (by decide) h

theorem isAsciiDigit_map_halfWidth {cs : List Char} (h : ∀ c ∈ cs, isDigit c = true) :
    ∀ c ∈ cs.map halfWidth, Decimal.isAsciiDigit c = true :=
  List.forall_mem_map.2 fun c hc => isAsciiDigit_halfWidth (h c hc)

theorem halfWidth_point {c : Char} (h : isPoint c = true) : halfWidth c = '.' := by
  obtain rfl | rfl : c = '.' ∨ c = '．' := by simpa [isPoint] using h
  · rfl
  · rfl

/-- Folding widths does not see whether a digit or a point is narrow. -/
theorem halfWidth_narrow {c : Char} (h : isDigit c = true ∨ isPoint c = true) :
    halfWidth (narrow c) = halfWidth c := by
  rcases h with h | h
  · exact digit_cases (P := fun c => halfWidth (narrow c) = halfWidth c) (by decide) h
  · have hnarrow : isPoint (narrow c) = true := apply_narrow isPoint (by decide) c ▸ h
    rw [halfWidth_point h, halfWidth_point hnarrow]

end Text

namespace Decimal

variable {cs fs : List Char}

/-- Digits are read up to a point, and then the digits behind it. -/
theorem readDigits_append (hcs : ∀ d ∈ cs, isAsciiDigit d = true)
    (hfs : fs = [] ∨ ∃ es, fs = '.' :: es ∧ ∀ e ∈ es, isAsciiDigit e = true) :
    readDigits (cs ++ fs) = (cs, fs.drop 1, []) := by
  have hhead : ∀ d ∈ fs.head?, isAsciiDigit d = false := by
    obtain rfl | ⟨es, rfl, -⟩ := hfs
    · simp
    · rintro _ ⟨⟩
      rfl
  simp only [readDigits, Scanner.takeWhile_append_of_head hcs hhead,
    Scanner.dropWhile_append_of_head hcs hhead]
  obtain rfl | ⟨es, rfl, hes⟩ := hfs
  · rfl
  · simp only [List.takeWhile_eq_self_iff.2 hes, List.dropWhile_eq_nil_iff.2 hes]
    rfl

/-- Digits can be read as a number, with or without a point and more digits behind it. -/
theorem exists_readChars? (hne : cs ≠ []) (hcs : ∀ d ∈ cs, isAsciiDigit d = true)
    (hfs : fs = [] ∨ ∃ es, fs = '.' :: es ∧ ∀ e ∈ es, isAsciiDigit e = true) :
    ∃ ds e, readChars? (cs ++ fs) = some (nearest ds e) := by
  obtain ⟨c, cs, rfl⟩ := List.exists_cons_of_ne_nil hne
  -- the first digit is no sign, and starts no word
  have hfirst : c ≠ '-' ∧ c ≠ '+' ∧ c.toLower ≠ 'i' ∧ c.toLower ≠ 'n' := by
    have hascii : ('0' ≤ c && c ≤ '9') = true := hcs c List.mem_cons_self
    have hc : Text.isDigit c = true := by rw [Text.isDigit, hascii, Bool.true_or]
    exact Text.digit_cases (P := fun c => c ≠ '-' ∧ c ≠ '+' ∧ c.toLower ≠ 'i' ∧ c.toLower ≠ 'n')
      (by decide) hc
  have hsign : readSign (c :: cs ++ fs) = (false, c :: cs ++ fs) := by
    rw [List.cons_append, readSign]
    · rintro _ ⟨⟩
      exact hfirst.1 rfl
    · rintro _ ⟨⟩
      exact hfirst.2.1 rfl
  have hword : ∀ (d : Char) (ds : List Char), c.toLower ≠ d →
      ((c :: cs ++ fs).map Char.toLower == d :: ds) = false := by
    intro d ds hd
    simp [hd]
  rw [readChars?, hsign]
  dsimp only
  rw [readMagnitude?, readDigits_append hcs hfs]
  have hinf : "inf".toList = ['i', 'n', 'f'] := by decide
  have hinfinity : "infinity".toList = ['i', 'n', 'f', 'i', 'n', 'i', 't', 'y'] := by decide
  have hnan : "nan".toList = ['n', 'a', 'n'] := by decide
  simp only [hinf, hinfinity, hnan, hword _ _ hfirst.2.2.1, hword _ _ hfirst.2.2.2]
  exact ⟨_, _, rfl⟩

end Decimal

namespace Scanner

/-- The text of a number can be read as one. -/
theorem exists_read?_number {text : String} (h : Lexeme .number text.toList) :
    ∃ ds e, Decimal.read? (Text.foldWidth text) = some (Decimal.nearest ds e) := by
  rw [Decimal.read?, Text.toList_foldWidth]
  generalize text.toList = w at h ⊢
  cases lexeme_number h with
  | whole hne hds =>
    have := Decimal.exists_readChars? (by simpa using hne) (Text.isAsciiDigit_map_halfWidth hds)
      (.inl rfl)
    rwa [List.append_nil] at this
  | @fraction ds fs point hne hds hpoint _ hfs =>
    rw [List.map_append, List.map_cons, Text.halfWidth_point hpoint]
    exact Decimal.exists_readChars? (by simpa using hne) (Text.isAsciiDigit_map_halfWidth hds)
      (.inr ⟨_, rfl, Text.isAsciiDigit_map_halfWidth hfs⟩)

theorem foldWidth_narrow_number {text : String} (h : Lexeme .number text.toList) :
    Text.foldWidth (text.map Text.narrow) = Text.foldWidth text := by
  apply String.toList_inj.1
  rw [Text.toList_foldWidth, Text.toList_foldWidth, String.toList_map, List.map_map]
  exact List.map_congr_left fun c hc =>
    Text.halfWidth_narrow ((lexeme_number h).digit_or_point c hc)

end Scanner

/-- A number has the same value in narrow forms, and is listed as that value. -/
theorem Literal.sexpr_narrow {l : Literal} (hk : l.kind = .number)
    (h : Scanner.Lexeme .number l.text.toList) :
    (l.respell (·.map Text.narrow)).sexpr = l.sexpr := by
  have hfold := Scanner.foldWidth_narrow_number h
  obtain ⟨ds, e, hread⟩ := Scanner.exists_read?_number h
  obtain ⟨kind, text⟩ := l
  obtain rfl : kind = .number := hk
  simp only [respell, sexpr, hfold, hread]
  rfl

/-! ## The literals of a program -/

def Node.literal? : Node → Option Literal
  | atom l _ => some l
  | _ => none

def Expression.literals (e : Expression) : List Literal := e.nodes.toList.filterMap Node.literal?

/-- The literals of conditions and arguments. A line of dialogue is none. -/
def Statement.literals : Statement → List Literal
  | dialogue _ _ => []
  | command _ arguments _ => arguments.entries.map Prod.snd
  | conditional condition body _ _ => condition.literals ++ body.literals

/-- A literal among the nodes of a tree stands among its symbols. -/
theorem literal_of_mem_layOut {l : Literal} {n : Node} (hn : n.literal? = some l) :
    (∀ (t : Tree) (nodes : Array Node), n ∈ t.layOut nodes →
        n ∈ nodes ∨ ∃ line, Symbol.literal l line ∈ t.yield) ∧
      ∀ (a : TreeArguments) (nodes : Array Node), n ∈ (a.layOut nodes).1 →
        n ∈ nodes ∨ ∃ line, Symbol.literal l line ∈ a.yield := by
  refine Tree.induct ?_ ?_ ?_ ?_ ?_ ?_
  · intro l' line nodes h
    rw [Tree.layOut, Array.mem_push] at h
    rcases h with h | rfl
    · exact .inl h
    · obtain rfl := Option.some.inj hn
      exact .inr ⟨line, by simp [Tree.yield]⟩
  · intro inner ih nodes h
    rw [Tree.layOut, Array.mem_push] at h
    rcases h with h | rfl
    · exact (ih nodes h).imp_right (Exists.imp fun line hmem => by simp [Tree.yield, hmem])
    · cases hn
  · intro o lhs rhs ihl ihr nodes h
    rw [Tree.layOut_join, Array.mem_push] at h
    rcases h with h | rfl
    · rcases ihr _ h with h | ⟨line, hmem⟩
      · exact (ihl nodes h).imp_right (Exists.imp fun line hmem => by simp [Tree.yield_join, hmem])
      · exact .inr ⟨line, by simp [Tree.yield_join, hmem]⟩
    · cases o <;> cases hn
  · intro name arguments line ih nodes h
    rw [Tree.layOut, Array.mem_push] at h
    rcases h with h | rfl
    · exact (ih nodes h).imp_right (Exists.imp fun line hmem => by simp [Tree.yield, hmem])
    · cases hn
  · intro nodes h
    exact .inl h
  · intro key value rest ihv ihr nodes h
    rcases ihr _ h with h | ⟨line, hmem⟩
    · exact (ihv nodes h).imp_right
        (Exists.imp fun line hmem => by simp [TreeArguments.yield, hmem])
    · exact .inr ⟨line, by simp [TreeArguments.yield, hmem]⟩

/-- The literals of what can be written are tokens. -/
theorem Statement.Writable.lexeme_literals {st : Statement} (h : st.Writable) :
    ∀ l ∈ st.literals, Scanner.Lexeme l.kind.token l.text.toList := by
  induction st with
  | dialogue text line => simp [literals]
  | command name arguments line =>
    intro l hl
    obtain ⟨entry, hentry, rfl⟩ := List.mem_map.1 hl
    exact (h.2.lexemes entry hentry).2
  | conditional condition body jump line ih =>
    obtain ⟨⟨t, rfl, ht⟩, hbody, -⟩ := h
    intro l hl
    rcases List.mem_append.1 hl with hl | hl
    · obtain ⟨n, hn, hliteral⟩ := List.mem_filterMap.1 hl
      obtain hnil | ⟨line, hmem⟩ :=
        (literal_of_mem_layOut hliteral).1 t #[] (by simpa [Expression.ofTree] using hn)
      · simp at hnil
      · exact (ht.symbols _ hmem).1
    · exact ih hbody l hl

/-! ## Reading narrow forms -/

/-- The items belong together, and no word changes. -/
structure Item.NarrowAlike (text : List Char) (x x' : Item) : Prop where
  form : x.NarrowForm text x'
  word : ∀ t, x = .token t → t.kind = .identifier → ∀ c ∈ t.text.toList, Text.narrow c = c

theorem Item.NarrowAlike.like {text : List Char} {x x' : Item} (h : x.NarrowAlike text x') :
    x.Like (·.map Text.narrow) id LexicalErrorKind.narrow x' := by
  have hshape := h.form.shape
  have hline := h.form.line
  cases x with
  | token t =>
    cases x' with
    | token t' =>
      have htext := h.form.text t t' rfl rfl
      refine .token ⟨Scanner.Shape.token.inj hshape, fun hk => ?_, fun _ => htext, hline⟩
      rw [htext, ← String.toList_inj, String.toList_map]
      exact (List.map_congr_left (h.word t rfl hk)).trans (List.map_id _)
    | error e' => cases hshape
  | error e =>
    cases x' with
    | token t' => cases hshape
    | error e' => exact .error (Scanner.Shape.error.inj hshape)

/-- A script and its narrow forms. -/
def Likeness.narrowing (text : List Char) : Likeness where
  spell := (·.map Text.narrow)
  line := id
  error := LexicalErrorKind.narrow
  Alike := Item.NarrowAlike text
  like := Item.NarrowAlike.like

/-- A script and its narrow forms are like streams if no word changes. -/
theorem Stream.streams_narrow {source : String} (small : Text.byteCount source.toList < 4294967296)
    (hwords : ∀ t, Item.token t ∈ (ofString source).items → t.kind = .identifier →
      ∀ c ∈ t.text.toList, Text.narrow c = c) :
    (Likeness.narrowing source.toList).Streams true (ofString source)
      (ofString (source.map Text.narrow)) := by
  let m := Likeness.narrowing source.toList
  have hitems := List.forall₂_iff_get.1 (narrowsIn_items source)
  have halike : List.Forall₂ m.Alike (ofString source).items
      (ofString (source.map Text.narrow)).items := by
    refine List.forall₂_iff_get.2 ⟨hitems.1, fun i hi hi' => ⟨?_, fun t ht hk => ?_⟩⟩
    · exact (hitems.2 i hi hi').narrowForm small
    · exact hwords t (ht ▸ List.get_mem _ _) hk
  refine ⟨forall₂_squeeze (fun _ _ => Likeness.isNewline_eq) halike true,
    (narrowsIn_finish source).narrowForm small, ?_⟩
  -- the end of a file is no word
  rintro t ⟨⟩ ⟨⟩

/-- Like statements are on the same lines. -/
theorem eq_map_respell {text : List Char} {sts sts' : List Statement}
    (h : List.Forall₂ (Likeness.narrowing text).Statements sts sts') :
    sts' = sts.map (Statement.respell (·.map Text.narrow)) := by
  induction h with
  | nil => rfl
  | @cons st st' _ _ hst _ ih =>
    have heq : st'.mapLines id = (st.respell (·.map Text.narrow)).mapLines id := hst
    rw [Statement.mapLines_id, Statement.mapLines_id] at heq
    rw [List.map_cons, ih, heq]

/-- A script and its narrow forms are read as the same program, with narrow forms in the texts of
    strings and numbers; or reading them fails in the same way at the same characters. -/
inductive Program.NarrowReading (text : List Char) :
    Except ParseError Program → Except ParseError Program → Prop where
  | ok {p : Program} (numbers : ∀ st ∈ p.statements, ∀ l ∈ st.literals, l.kind = .number →
      (l.respell (·.map Text.narrow)).sexpr = l.sexpr) :
    NarrowReading text (.ok p) (.ok (p.respell (·.map Text.narrow)))
  | error {e e' : ParseError} (kind : e.kind.Like LexicalErrorKind.narrow e'.kind)
    (line : e'.line = e.line)
    (range : e'.span.charRange (text.map Text.narrow) = e.span.charRange text) :
    NarrowReading text (.error e) (.error e')

/-- **Full-width and ASCII forms are interchangeable.** In narrow forms a script has the same items
    at the same characters, and it is read in the same way if no word changes. -/
theorem Program.parse_narrow (source : String) (small : source.utf8ByteSize < 4294967296) :
    List.Forall₂ (Item.NarrowForm source.toList) (Stream.ofString source).toList
        (Stream.ofString (source.map Text.narrow)).toList ∧
      ((∀ t, Item.token t ∈ (Stream.ofString source).items → t.kind = .identifier →
          ∀ c ∈ t.text.toList, Text.narrow c = c) →
        NarrowReading source.toList (parse source) (parse (source.map Text.narrow))) := by
  rw [← Text.byteCount_toList] at small
  have hitems := (Stream.narrowsIn_items source).imp fun _ _ h => h.narrowForm small
  have hfinish := (Stream.narrowsIn_finish source).narrowForm small
  refine ⟨List.rel_append hitems (.cons hfinish .nil), fun hwords => ?_⟩
  have hlike := parsedLike (Stream.streams_narrow small hwords)
  generalize hparse : parse source = r at hlike
  generalize parse (source.map Text.narrow) = r' at hlike
  cases hlike with
  | @ok p p' hstatements =>
    obtain rfl : p' = p.respell (·.map Text.narrow) :=
      congrArg Program.mk (eq_map_respell hstatements)
    refine .ok fun st hst l hl hk => Literal.sexpr_narrow hk ?_
    have hlexeme := (writable_of_parse hparse st hst).lexeme_literals l hl
    rwa [hk] at hlexeme
  | error herrors =>
    obtain ⟨hkind, x, x', halike, he, he'⟩ := herrors
    have hform : x.NarrowForm source.toList x' := halike.form
    refine .error hkind ?_ ?_
    · rw [he'.line, he.line, hform.line]
    · rw [he'.span, he.span, hform.range]

/-- Both forms in one script: operators, numbers, brackets, colons, a blank and a comment mark, and
    strings that change where a word does not. -/
theorem Program.parse_narrow_mixed :
    "※１．５！=2 かつ（ｆ（値：「#（」）＜＝3）\n「ａ＝１」\n→場\n命令　鍵：０.5 #＃\n".utf8ByteSize <
        4294967296 ∧
      (∀ t, Item.token t ∈ (Stream.ofString
          "※１．５！=2 かつ（ｆ（値：「#（」）＜＝3）\n「ａ＝１」\n→場\n命令　鍵：０.5 #＃\n").items →
        t.kind = .identifier → ∀ c ∈ t.text.toList, Text.narrow c = c) ∧
      NarrowReading
        "※１．５！=2 かつ（ｆ（値：「#（」）＜＝3）\n「ａ＝１」\n→場\n命令　鍵：０.5 #＃\n".toList
        (parse "※１．５！=2 かつ（ｆ（値：「#（」）＜＝3）\n「ａ＝１」\n→場\n命令　鍵：０.5 #＃\n")
        (parse ("※１．５！=2 かつ（ｆ（値：「#（」）＜＝3）\n「ａ＝１」\n→場\n命令　鍵：０.5 #＃\n".map
          Text.narrow)) := by
  have hsmall : "※１．５！=2 かつ（ｆ（値：「#（」）＜＝3）\n「ａ＝１」\n→場\n命令　鍵：０.5 #＃\n".utf8ByteSize <
      4294967296 := by decide +kernel
  have hall : ((Stream.ofString
      "※１．５！=2 かつ（ｆ（値：「#（」）＜＝3）\n「ａ＝１」\n→場\n命令　鍵：０.5 #＃\n").items.filterMap
        Item.token?).all (fun t =>
          t.kind != .identifier || t.text.toList.all fun c => Text.narrow c == c) = true := by
    decide +kernel
  refine ⟨hsmall, ?words, (parse_narrow _ hsmall).2 ?words⟩
  intro t ht hk
  simpa [hk] using List.all_eq_true.1 hall t (List.mem_filterMap.2 ⟨_, ht, rfl⟩)

end StageScript
