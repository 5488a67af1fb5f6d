import Mathlib.Data.List.TakeWhile
import StageScript.Proofs.Reading

set_option autoImplicit false

/-! # The characters of a token

What a token is depends on its own characters only, as long as nothing behind it goes on with it.
So the text of every token that was scanned (`lexeme_of_shape`) can be written anew before a blank,
a newline or a colon, and is scanned there as the same token (`streamAt_lexeme`). -/

namespace StageScript.Scanner

/-! ## Lexemes -/

/-- A character that goes on with no token: it can stand behind any. -/
def separates (c : Char) : Bool :=
  !isWordChar c && !Text.isDigit c && !Text.isPoint c && !isEqualSign c

/-- Nothing or a separating character comes next. -/
def Separated (cs : List Char) : Prop := ∀ c ∈ cs.head?, separates c

/-- The characters stand on one line, and are read as one token of the kind whatever separated
    characters follow. -/
def Lexeme (kind : TokenKind) : List Char → Prop
  | [] => False
  | c :: cs => '\n' ∉ cs ∧
    ∀ after, Separated after → shape c (cs ++ after) = (.token kind, cs.length)

theorem separated_nil : Separated [] := by simp [Separated]

theorem separated_cons {c : Char} (h : separates c) (rest : List Char) : Separated (c :: rest) := by
  simpa [Separated] using h

theorem takeWhile_append_of_head {p : Char → Bool} {cs after : List Char} (hcs : ∀ c ∈ cs, p c)
    (hafter : ∀ c ∈ after.head?, p c = false) : (cs ++ after).takeWhile p = cs := by
  rw [List.takeWhile_append_of_pos hcs]
  cases after with
  | nil => simp
  | cons c after => simp [hafter c rfl]

theorem dropWhile_append_of_head {p : Char → Bool} {cs after : List Char} (hcs : ∀ c ∈ cs, p c)
    (hafter : ∀ c ∈ after.head?, p c = false) : (cs ++ after).dropWhile p = after := by
  rw [List.dropWhile_append_of_pos hcs]
  cases after with
  | nil => simp
  | cons c after => simp [hafter c rfl]

theorem Separated.head {after : List Char} (h : Separated after) :
    (∀ c ∈ after.head?, isWordChar c = false) ∧ (∀ c ∈ after.head?, Text.isDigit c = false) ∧
      (∀ c ∈ after.head?, Text.isPoint c = false) ∧ ∀ c ∈ after.head?, isEqualSign c = false := by
  have hc : ∀ c ∈ after.head?, ((isWordChar c = false ∧ Text.isDigit c = false) ∧
      Text.isPoint c = false) ∧ isEqualSign c = false := fun c hc => by
    simpa [separates] using h c hc
  exact ⟨fun c h => (hc c h).1.1.1, fun c h => (hc c h).1.1.2, fun c h => (hc c h).1.2,
    fun c h => (hc c h).2⟩

/-! ## The cases of a shape -/

/-- A case split that does not look ahead. -/
theorem shape_ite {P : (List Char → Shape × Nat) → Prop} {b : Prop} [Decidable b]
    {f g : List Char → Shape × Nat} (hf : b → P f) (hg : ¬b → P g) :
    P fun cs => if b then f cs else g cs := by
  by_cases h : b
  · simpa only [if_pos h] using hf h
  · simpa only [if_neg h] using hg h

/-- What starts at a character is decided by that character, in one of eight ways to look at the
    characters behind it. -/
theorem shape_cases {P : (List Char → Shape × Nat) → Prop} (c : Char)
    (hcomment : isCommentMark c = true → P fun cs => (.gap, restOfLine cs))
    (hgap : isGap c = true → P fun _ => (.gap, 0))
    (hsingle : ∀ s : Shape, P fun _ => (s, 0))
    (hcomparison : ∀ plain withEqual : Shape, P (comparison plain withEqual))
    (hstring : P fun cs =>
      match closing? 1 cs with
      | some n => (.token .string, n)
      | none => (.error .unclosedString, restOfLine cs))
    (hnumber : P fun cs => (.token .number, numberLength cs))
    (hword : P fun cs =>
      let more := cs.takeWhile isWordChar
      (.token (TokenKind.ofWord (String.ofList (c :: more))), more.length)) :
    P (shape c) := by
  refine shape_ite (fun _ => hsingle _) fun _ => ?_
  refine shape_ite (fun h => hcomment h) fun _ => ?_
  refine shape_ite (fun h => hgap h) fun _ => ?_
  iterate 8 refine shape_ite (fun _ => hsingle _) fun _ => ?_
  iterate 4 refine shape_ite (fun _ => hcomparison _ _) fun _ => ?_
  refine shape_ite (fun _ => hstring) fun _ => ?_
  refine shape_ite (fun _ => hnumber) fun _ => ?_
  exact shape_ite (fun _ => hword) fun _ => hsingle _

/-! ## What may stand behind a token -/

/-- A token ends on its line, and separated characters can be put in the place of those behind
    it. -/
def Kept (rest after : List Char) (f : List Char → Shape × Nat) : Prop :=
  ∀ kind n, f rest = (.token kind, n) →
    '\n' ∉ rest.take n ∧ f (rest.take n ++ after) = (.token kind, (rest.take n).length)

namespace Kept

variable {rest after : List Char}

theorem fixed (s : Shape) : Kept rest after fun _ => (s, 0) := by
  rintro kind n ⟨⟩
  exact ⟨by simp, rfl⟩

theorem comparison (plain withEqual : Shape) (hafter : Separated after) :
    Kept rest after (comparison plain withEqual) := by
  intro kind n h
  cases rest with
  | nil =>
    obtain ⟨rfl, rfl⟩ := Prod.mk.inj h
    refine ⟨by simp, ?_⟩
    cases after with
    | nil => rfl
    | cons c after => simp [Scanner.comparison, equalLength, hafter.head.2.2.2 c rfl]
  | cons c rest =>
    by_cases hc : isEqualSign c = true
    · simp only [Scanner.comparison, equalLength, hc, if_true, beq_self_eq_true] at h
      obtain ⟨rfl, rfl⟩ := Prod.mk.inj h
      refine ⟨?_, by simp [Scanner.comparison, equalLength, hc]⟩
      have hline : '\n' ≠ c := by
        rintro rfl
        exact absurd hc (by decide)
      simpa using hline
    · simp only [Scanner.comparison, equalLength, hc] at h
      obtain ⟨rfl, rfl⟩ := Prod.mk.inj h
      refine ⟨by simp, ?_⟩
      cases after with
      | nil => rfl
      | cons c after => simp [Scanner.comparison, equalLength, hafter.head.2.2.2 c rfl]

/-- The mark that closes a string stands on its line, and is found without what stands behind it. -/
theorem closing?_take (after : List Char) {depth n : Nat} {rest : List Char}
    (h : closing? depth rest = some n) :
    '\n' ∉ rest.take n ∧ closing? depth (rest.take n ++ after) = some n ∧
      (rest.take n).length = n := by
  induction rest generalizing depth n with
  | nil => cases h
  | cons c rest ih =>
    rw [closing?] at h
    split at h
    · cases h
    next hline =>
      have hc : '\n' ≠ c := by
        rintro rfl
        exact hline rfl
      split at h
      · next hopen =>
        obtain ⟨m, hm, rfl⟩ := Option.map_eq_some_iff.1 h
        obtain ⟨hnewline, hclose, hlength⟩ := ih hm
        simp [closing?, hline, hopen, hclose, hlength, hc, hnewline]
      · next hopen =>
        split at h
        · next hclosing =>
          split at h
          · next hdepth =>
            cases h
            simp [closing?, hline, hopen, hclosing, hdepth, hc]
          · next hdepth =>
            obtain ⟨m, hm, rfl⟩ := Option.map_eq_some_iff.1 h
            obtain ⟨hnewline, hclose, hlength⟩ := ih hm
            simp [closing?, hline, hopen, hclosing, hdepth, hclose, hlength, hc, hnewline]
        · next hclosing =>
          obtain ⟨m, hm, rfl⟩ := Option.map_eq_some_iff.1 h
          obtain ⟨hnewline, hclose, hlength⟩ := ih hm
          simp [closing?, hline, hopen, hclosing, hclose, hlength, hc, hnewline]

theorem string : Kept rest after fun cs =>
    match closing? 1 cs with
    | some n => (.token .string, n)
    | none => (.error .unclosedString, restOfLine cs) := by
  intro kind n h
  dsimp only at h ⊢
  cases hclose : closing? 1 rest with
  | none =>
    rw [hclose] at h
    cases h
  | some m =>
    rw [hclose] at h
    cases h
    obtain ⟨hnewline, hkept, hlength⟩ := closing?_take after hclose
    rw [hkept, hlength]
    exact ⟨hnewline, rfl⟩

theorem word (c : Char) (hafter : Separated after) : Kept rest after fun cs =>
    let more := cs.takeWhile isWordChar
    (.token (TokenKind.ofWord (String.ofList (c :: more))), more.length) := by
  intro kind n h
  obtain ⟨hkind, hlength⟩ := Prod.mk.inj h
  have htake : rest.take n = rest.takeWhile isWordChar := by
    rw [← hlength]
    exact (List.prefix_iff_eq_take.1 (List.takeWhile_prefix _)).symm
  have hword : ∀ c ∈ rest.take n, isWordChar c := by
    rw [htake]
    exact fun _ => List.mem_takeWhile_imp
  refine ⟨fun hline => absurd (hword _ hline) (by decide), ?_⟩
  have hkept : (rest.take n ++ after).takeWhile isWordChar = rest.take n :=
    takeWhile_append_of_head hword hafter.head.1
  dsimp only
  rw [hkept, ← hkind, htake]

/-- The fraction of a number stands on its line and is found without what stands behind it, and what
    follows a number without one is none. -/
theorem fractionLength_take (rest : List Char) (hafter : Separated after) :
    '\n' ∉ rest.take (fractionLength rest) ∧
      fractionLength (rest.take (fractionLength rest) ++ after) =
        (rest.take (fractionLength rest)).length := by
  have hnone : fractionLength after = 0 := by
    match after with
    | [] | [_] => rfl
    | point :: digit :: cs => simp [fractionLength, hafter.head.2.2.1 point rfl]
  match rest with
  | [] => exact ⟨by simp, hnone⟩
  | [_] => exact ⟨by simp [fractionLength], hnone⟩
  | point :: digit :: cs =>
    by_cases h : (Text.isPoint point && Text.isDigit digit) = true
    · have hlength : fractionLength (point :: digit :: cs) =
          (cs.takeWhile Text.isDigit).length + 1 + 1 := by
        rw [fractionLength, if_pos h, Nat.add_comm]
      have htake : cs.take (cs.takeWhile Text.isDigit).length = cs.takeWhile Text.isDigit :=
        (List.prefix_iff_eq_take.1 (List.takeWhile_prefix _)).symm
      obtain ⟨hpoint, hdigit⟩ := (Bool.and_eq_true _ _).mp h
      rw [hlength, List.take_succ_cons, List.take_succ_cons, htake]
      constructor
      · intro hline
        rcases List.mem_cons.1 hline with rfl | hline
        · exact absurd hpoint (by decide)
        rcases List.mem_cons.1 hline with rfl | hline
        · exact absurd hdigit (by decide)
        · exact absurd (List.mem_takeWhile_imp hline) (by decide)
      · rw [List.cons_append, List.cons_append, fractionLength, if_pos h,
          takeWhile_append_of_head (fun _ => List.mem_takeWhile_imp) hafter.head.2.1]
        simp only [List.length_cons]
        omega
    · have hlength : fractionLength (point :: digit :: cs) = 0 := by rw [fractionLength, if_neg h]
      rw [hlength]
      exact ⟨by simp, hnone⟩

theorem number (hafter : Separated after) : Kept rest after fun cs =>
    (.token .number, numberLength cs) := by
  intro kind n h
  obtain ⟨hkind, hlength⟩ := Prod.mk.inj h
  let digits := rest.takeWhile Text.isDigit
  let behind := rest.dropWhile Text.isDigit
  have hdigits : ∀ c ∈ digits, Text.isDigit c := fun _ => List.mem_takeWhile_imp
  have htake : rest.take n = digits ++ behind.take (fractionLength behind) := by
    have hsplit : digits ++ behind = rest := List.takeWhile_append_dropWhile
    calc rest.take n
        = (digits ++ behind).take (digits.length + fractionLength behind) := by
          rw [hsplit, ← hlength]
          rfl
      _ = digits ++ behind.take (fractionLength behind) := List.take_length_add_append _
  -- the digits end before a point or before what follows
  have hhead : ∀ c ∈ (behind.take (fractionLength behind) ++ after).head?,
      Text.isDigit c = false := by
    cases hbehind : behind with
    | nil => exact hafter.head.2.1
    | cons c cs =>
      have hc : Text.isDigit c = false := by
        have := List.head?_dropWhile_not Text.isDigit rest
        rw [show rest.dropWhile Text.isDigit = c :: cs from hbehind] at this
        simpa using this
      cases hfraction : fractionLength (c :: cs) with
      | zero => exact hafter.head.2.1
      | succ m =>
        intro d hd
        obtain rfl : c = d := by simpa using hd
        exact hc
  obtain ⟨hnewline, hfraction⟩ := fractionLength_take behind hafter
  dsimp only
  rw [hkind, htake, numberLength, List.append_assoc, takeWhile_append_of_head hdigits hhead,
    dropWhile_append_of_head hdigits hhead, hfraction, List.length_append]
  refine ⟨fun hline => ?_, rfl⟩
  rcases List.mem_append.1 hline with hline | hline
  · exact absurd (hdigits _ hline) (by decide)
  · exact hnewline hline

end Kept

/-- The text of a token is a lexeme. -/
theorem lexeme_of_shape {c : Char} {rest : List Char} {kind : TokenKind} {n : Nat}
    (h : shape c rest = (.token kind, n)) : Lexeme kind (c :: rest.take n) := by
  suffices hkept : ∀ after, Separated after → Kept rest after (shape c) from
    ⟨(hkept [] separated_nil kind n h).1, fun after hafter => (hkept after hafter kind n h).2⟩
  intro after hafter
  refine shape_cases c (fun _ => ?_) (fun _ => .fixed _) .fixed
    (fun _ _ => .comparison _ _ hafter) .string (.number hafter) (.word c hafter)
  intro kind n h
  cases h

/-- Characters that are scanned as one token by themselves are a lexeme. -/
theorem lexeme_of_shape_eq {c : Char} {cs : List Char} {kind : TokenKind}
    (h : shape c cs = (.token kind, cs.length)) : Lexeme kind (c :: cs) := by
  have := lexeme_of_shape h
  rwa [List.take_length] at this

/-- The kinds that words are of. -/
def wordKinds : List TokenKind := [.identifier, .conjunction, .disjunction]

theorem ofWord_mem (word : String) : TokenKind.ofWord word ∈ wordKinds := by
  rw [TokenKind.ofWord, TokenKind.ofKeyword?]
  split
  · decide
  · split <;> decide

/-! ## What starts at a character -/

/-- The characters that are a token of the kind by themselves. -/
def marks : TokenKind → List Char
  | .newline => ['\n']
  | .leftParen => ['(', '（']
  | .rightParen => [')', '）']
  | .colon => [':', '：']
  | .guardMark => ['※']
  | .arrow => ['→']
  | .notEqual => ['≠']
  | .lessEqual => ['≤']
  | .greaterEqual => ['≥']
  | _ => []

/-- The character starts a comparison: what it is by itself, and the kind of token that it is with
    an equal sign behind it. -/
inductive Sign (c : Char) : Shape → TokenKind → Prop where
  | equal (hc : c ∈ ['=', '＝']) : Sign c (.token .equal) .equal
  | bang (hc : c ∈ ['!', '！']) : Sign c (.error (.unrecognized c)) .notEqual
  | less (hc : c ∈ ['<', '＜']) : Sign c (.token .less) .lessEqual
  | greater (hc : c ∈ ['>', '＞']) : Sign c (.token .greater) .greaterEqual

theorem shape_of_sign {c : Char} {plain : Shape} {kind : TokenKind} (h : Sign c plain kind) :
    shape c = comparison plain (.token kind) := by
  cases h with
  | equal hc | bang hc | less hc | greater hc =>
    simp only [List.mem_cons, List.not_mem_nil, or_false] at hc
    rcases hc with rfl | rfl <;> rfl

/-- What starts at a character, and how many of the characters behind it belong to it. -/
inductive Starts (c : Char) (cs : List Char) : Shape → Nat → Prop where
  | comment (hc : isCommentMark c = true) : Starts c cs .gap (restOfLine cs)
  | blank (hc : isGap c = true) : Starts c cs .gap 0
  | mark {kind : TokenKind} (hc : c ∈ marks kind) : Starts c cs (.token kind) 0
  | sign {plain : Shape} {kind : TokenKind} (hc : Sign c plain kind) (h : equalLength cs ≠ 1) :
    Starts c cs plain 0
  | signEqual {plain : Shape} {kind : TokenKind} (hc : Sign c plain kind) (h : equalLength cs = 1) :
    Starts c cs (.token kind) 1
  | string {n : Nat} (hc : c = '「') (h : closing? 1 cs = some n) : Starts c cs (.token .string) n
  | unclosed (hc : c = '「') (h : closing? 1 cs = none) :
    Starts c cs (.error .unclosedString) (restOfLine cs)
  | number (hc : Text.isDigit c = true) : Starts c cs (.token .number) (numberLength cs)
  | word {kind : TokenKind} (hc : isWordChar c = true) (hdigit : Text.isDigit c = false)
    (hkind : TokenKind.ofWord (String.ofList (c :: cs.takeWhile isWordChar)) = kind) :
    Starts c cs (.token kind) (cs.takeWhile isWordChar).length
  | unknown : Starts c cs (.error (.unrecognized c)) 0

theorem starts_shape (c : Char) (cs : List Char) : Starts c cs (shape c cs).1 (shape c cs).2 := by
  let P : (List Char → Shape × Nat) → Prop := fun f => Starts c cs (f cs).1 (f cs).2
  suffices h : P (shape c) from h
  have hmark : ∀ {kind : TokenKind} {b : Bool}, (b = true → c ∈ marks kind) → b = true →
      P fun _ => (.token kind, 0) := fun hc hb => .mark (hc hb)
  have hsign : ∀ {plain : Shape} {kind : TokenKind}, Sign c plain kind →
      P (comparison plain (.token kind)) := by
    intro plain kind hc
    change Starts c cs (comparison plain (.token kind) cs).1 (comparison plain (.token kind) cs).2
    rw [comparison]
    split
    · next h => exact .signEqual hc (by simpa using h)
    · next h => exact .sign hc (by simpa using h)
  refine shape_ite (hmark fun h => by simpa [marks] using h) fun _ => ?_
  refine shape_ite (fun h => Starts.comment h) fun _ => ?_
  refine shape_ite (fun h => Starts.blank h) fun _ => ?_
  iterate 8 refine shape_ite (hmark fun h => by simpa [marks] using h) fun _ => ?_
  refine shape_ite (fun h => hsign (.equal (by simpa [isEqualSign] using h))) fun _ => ?_
  refine shape_ite (fun h => hsign (.bang (by simpa using h))) fun _ => ?_
  refine shape_ite (fun h => hsign (.less (by simpa using h))) fun _ => ?_
  refine shape_ite (fun h => hsign (.greater (by simpa using h))) fun _ => ?_
  refine shape_ite (fun h => ?_) fun _ => ?_
  · have hc : c = '「' := by simpa using h
    change Starts c cs (Prod.fst _) (Prod.snd _)
    dsimp only
    cases hclose : closing? 1 cs with
    | some n => exact .string hc hclose
    | none => exact .unclosed hc hclose
  refine shape_ite (fun h => Starts.number h) fun hdigit => ?_
  exact shape_ite (fun h => Starts.word h (by simpa using hdigit) rfl) fun _ => Starts.unknown

theorem starts_of_shape {c : Char} {cs : List Char} {s : Shape} {n : Nat}
    (h : shape c cs = (s, n)) : Starts c cs s n := by
  have := starts_shape c cs
  rwa [h] at this

theorem exists_starts {c : Char} {cs : List Char} {s : Shape} (h : (shape c cs).1 = s) :
    ∃ n, Starts c cs s n := ⟨_, h ▸ starts_shape c cs⟩

/-- No characters are the end of the file. -/
theorem shape_ne_endOfFile (c : Char) (rest : List Char) :
    (shape c rest).1 ≠ .token .endOfFile := by
  intro h
  obtain ⟨n, hstarts⟩ := exists_starts h
  cases hstarts with
  | mark hc => simp [marks] at hc
  | sign hc => cases hc
  | signEqual hc => cases hc
  | word _ _ hkind => exact absurd (hkind ▸ ofWord_mem _) (by decide)

/-! ## Places -/

theorem Place.afterAll_append (p : Place) (cs ds : List Char) :
    p.afterAll (cs ++ ds) = (p.afterAll cs).afterAll ds := List.foldl_append

theorem Place.afterAll_eq (p : Place) (cs : List Char) :
    p.afterAll cs = ⟨p.offset + Text.byteCount cs, p.line + cs.count '\n'⟩ := by
  induction cs generalizing p with
  | nil => rfl
  | cons c cs ih =>
    change (p.after c).afterAll cs = _
    rw [ih, Place.after, Text.byteCount_cons, List.count_cons]
    by_cases hc : c = '\n'
    · simp only [hc, beq_self_eq_true, if_true, Place.mk.injEq]
      omega
    · simp only [beq_eq_false_iff_ne.2 hc, Place.mk.injEq]
      refine ⟨by omega, by simp⟩

/-! ## Streams -/

theorem streamAt_gap {p : Place} {c : Char} {rest : List Char} (h : shape c rest = (.gap, 0)) :
    streamAt p (c :: rest) = streamAt (p.after c) rest := by
  rw [streamAt, streamAt, itemsAt, h]
  rfl

/-- Only the newline goes over the end of its line. -/
theorem Lexeme.newline_notMem {kind : TokenKind} {w : List Char} (hw : Lexeme kind w)
    (hkind : kind ≠ .newline) : '\n' ∉ w := by
  cases w with
  | nil => exact hw.elim
  | cons c cs =>
    have hc : '\n' ≠ c := by
      rintro rfl
      have hshape : shape '\n' (cs ++ []) = (.token .newline, 0) := rfl
      exact hkind (Shape.token.inj (congrArg Prod.fst ((hw.2 [] separated_nil).symm.trans hshape)))
    simpa [hc] using hw.1

/-- A lexeme other than the newline leaves its line as it is. -/
theorem Lexeme.line_afterAll {kind : TokenKind} {w : List Char} (hw : Lexeme kind w)
    (hkind : kind ≠ .newline) (p : Place) : (p.afterAll w).line = p.line := by
  rw [Place.afterAll_eq, List.count_eq_zero_of_not_mem (hw.newline_notMem hkind), Nat.add_zero]

/-- The token that some characters at a place make up. -/
def tokenAt (p : Place) (kind : TokenKind) (w : List Char) : Token :=
  ⟨kind, Span.between p.offset (p.offset + Text.byteCount w), p.line, String.ofList w⟩

/-- A lexeme is scanned as a token before separated characters. -/
theorem streamAt_lexeme {p : Place} {kind : TokenKind} {w rest : List Char} (hw : Lexeme kind w)
    (hrest : Separated rest) :
    streamAt p (w ++ rest) = (streamAt (p.afterAll w) rest).prepend [tokenAt p kind w] := by
  cases w with
  | nil => exact hw.elim
  | cons c cs =>
    have htake : (cs ++ rest).take cs.length = cs := List.take_left
    have hitems : itemsAt 0 p (c :: cs ++ rest) =
        .token (tokenAt p kind (c :: cs)) :: itemsAt 0 (p.afterAll (c :: cs)) rest := by
      rw [List.cons_append, itemsAt, hw.2 rest hrest]
      simp only [Shape.item?, tokenAt]
      rw [htake, itemsAt_skip, htake, List.drop_left]
      rfl
    rw [streamAt, hitems, streamAt, Place.afterAll_append]
    rfl

/-- A character that is a token by itself needs nothing behind it. -/
theorem streamAt_mark (kind : TokenKind) {p : Place} {c : Char} {rest : List Char}
    (h : shape c rest = (.token kind, 0)) :
    streamAt p (c :: rest) = (streamAt (p.after c) rest).prepend [tokenAt p kind [c]] := by
  rw [streamAt, itemsAt, h]
  rfl

/-- Every item of some characters is what is scanned at one of them. -/
theorem exists_shape_of_mem {x : Item} {skip : Nat} {p : Place} {cs : List Char}
    (h : x ∈ itemsAt skip p cs) :
    ∃ before c rest, cs = before ++ c :: rest ∧
      (shape c rest).1.item? (p.afterAll before) (c :: rest.take (shape c rest).2) = some x := by
  induction cs generalizing skip p with
  | nil => cases skip <;> cases h
  | cons c cs ih =>
    have hlater : ∀ {skip}, x ∈ itemsAt skip (p.after c) cs → ∃ before d rest,
        c :: cs = before ++ d :: rest ∧ (shape d rest).1.item? (p.afterAll before)
          (d :: rest.take (shape d rest).2) = some x := by
      intro skip h
      obtain ⟨before, d, rest, rfl, hitem⟩ := ih h
      exact ⟨c :: before, d, rest, rfl, hitem⟩
    cases skip with
    | succ skip => exact hlater h
    | zero =>
      rw [itemsAt] at h
      dsimp only at h
      split at h
      · next item hitem =>
        rcases List.mem_cons.1 h with rfl | htail
        · exact ⟨[], c, cs, rfl, hitem⟩
        · exact hlater htail
      · exact hlater h

/-- Only a gap makes up no item. -/
theorem Shape.eq_gap_of_item? {s : Shape} {p : Place} {lexeme : List Char}
    (h : s.item? p lexeme = none) : s = .gap := by
  cases s with
  | gap => rfl
  | token kind => cases h
  | error kind => cases h

theorem Shape.span_of_item? {s : Shape} {p : Place} {lexeme : List Char} {x : Item}
    (h : s.item? p lexeme = some x) :
    x.span = Span.between p.offset (p.offset + Text.byteCount lexeme) := by
  cases s <;> cases h <;> rfl

theorem Shape.line_of_item? {s : Shape} {p : Place} {lexeme : List Char} {x : Item}
    (h : s.item? p lexeme = some x) : x.line = p.line := by
  cases s <;> cases h <;> rfl

/-- The text of a token that was scanned is a lexeme. -/
theorem lexeme_of_mem {t : Token} {skip : Nat} {p : Place} {cs : List Char}
    (h : .token t ∈ itemsAt skip p cs) : Lexeme t.kind t.text.toList := by
  obtain ⟨before, c, rest, -, hitem⟩ := exists_shape_of_mem h
  cases hshape : shape c rest with
  | mk s n =>
    rw [hshape] at hitem
    cases s with
    | gap => cases hitem
    | error kind => cases hitem
    | token kind =>
      cases hitem
      rw [String.toList_ofList]
      exact lexeme_of_shape hshape

theorem Lexeme.ne_endOfFile {kind : TokenKind} {w : List Char} (h : Lexeme kind w) :
    kind ≠ .endOfFile := by
  rintro rfl
  cases w with
  | nil => exact h
  | cons c cs => exact shape_ne_endOfFile c _ (congrArg Prod.fst (h.2 [] separated_nil))

/-! ## One lexeme for every kind -/

/-- Characters that are scanned as a token of the kind. -/
def spelling : TokenKind → List Char
  | .leftParen => ['(']
  | .rightParen => [')']
  | .colon => ['：']
  | .guardMark => ['※']
  | .arrow => ['→']
  | .equal => ['=']
  | .notEqual => ['!', '=']
  | .less => ['<']
  | .lessEqual => ['<', '=']
  | .greater => ['>']
  | .greaterEqual => ['>', '=']
  | .number => ['0']
  | .string => ['「', '」']
  | .identifier => ['語']
  | .conjunction => ['a', 'n', 'd']
  | .disjunction => ['o', 'r']
  | .newline => ['\n']
  | .endOfFile => []

theorem lexeme_spelling {kind : TokenKind} (h : kind ≠ .endOfFile) :
    Lexeme kind (spelling kind) := by
  cases kind
  case endOfFile => exact absurd rfl h
  all_goals
    exact lexeme_of_shape_eq (by decide +kernel)

end StageScript.Scanner
