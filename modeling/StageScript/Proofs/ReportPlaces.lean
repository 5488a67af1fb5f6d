import Mathlib.Data.List.Count
import Mathlib.Data.List.DropRight
import StageScript.Proofs.Acceptance
import StageScript.Proofs.LineNumbers
import StageScript.Report

set_option autoImplicit false

/-! # Places in reports

An annotated report on an error gets its line and column from a locator, by positions of characters,
and a plain one its line from the index of lines, by positions of bytes. Of the locator it is only
assumed that it counts the lines of the text and the characters of a line (`Report.Locator.Lawful`).
The two then name the same line, but for an error at the end of a text that ends with a newline,
where the index has a line of its own that the locator has not. Main statement:
`Report.samePlace`. -/

namespace StageScript

/-! ## Lines of a text -/

namespace Text

/-- The lines of a text, each with the newline that ends it. A newline at the very end opens no
    further line, and a text without characters is one line. -/
def lines : List Char → List (List Char)
  | [] => [[]]
  | [c] => [[c]]
  | c :: d :: cs =>
    if c = '\n' then [c] :: lines (d :: cs) else (lines (d :: cs)).modifyHead (c :: ·)

/-- The characters behind the last newline. -/
def lastLine (cs : List Char) : List Char := cs.rtakeWhile (· ≠ '\n')

theorem lines_newline {cs : List Char} (h : cs ≠ []) : lines ('\n' :: cs) = ['\n'] :: lines cs := by
  obtain ⟨d, cs, rfl⟩ := List.exists_cons_of_ne_nil h
  rw [lines, if_pos rfl]

theorem lines_cons {c : Char} {cs first : List Char} {others : List (List Char)} (hc : c ≠ '\n')
    (h : lines cs = first :: others) : lines (c :: cs) = (c :: first) :: others := by
  cases cs with
  | nil =>
    cases h
    rfl
  | cons d cs => rw [lines, if_neg hc, h, List.modifyHead_cons]

theorem lines_ne_nil (cs : List Char) : lines cs ≠ [] := by
  fun_induction lines cs with
  | case1 => simp
  | case2 => simp
  | case3 => simp
  | case4 c d cs hc ih => simpa using ih

/-- The first line of some characters has some of them. -/
theorem exists_lines_cons {cs : List Char} (h : cs ≠ []) :
    ∃ first others, lines cs = first :: others ∧ first ≠ [] := by
  fun_cases lines cs with
  | case1 => exact absurd rfl h
  | case2 c => exact ⟨[c], [], rfl, by simp⟩
  | case3 d cs => exact ⟨['\n'], _, rfl, by simp⟩
  | case4 c d cs hc =>
    obtain ⟨first, others, hlines⟩ := List.exists_cons_of_ne_nil (lines_ne_nil (d :: cs))
    exact ⟨c :: first, others, by rw [hlines, List.modifyHead_cons], by simp⟩

/-- Characters up to a newline are whole lines, and what is behind them has lines of its own. -/
theorem exists_lines_append {upTo rest : List Char} (hrest : rest ≠ [])
    (h : ∀ hne : upTo ≠ [], upTo.getLast hne = '\n') :
    ∃ whole, lines (upTo ++ rest) = whole ++ lines rest ∧ whole.flatten = upTo ∧
      whole.length = upTo.count '\n' := by
  induction upTo with
  | nil => exact ⟨[], rfl, rfl, rfl⟩
  | cons c upTo ih =>
    obtain ⟨whole, hlines, hflatten, hlength⟩ := ih fun hne => by
      rw [← List.getLast_cons hne (a := c)]
      exact h (List.cons_ne_nil c upTo)
    by_cases hc : c = '\n'
    · refine ⟨[c] :: whole, ?_, by simp [hflatten], by simp [hc, hlength]⟩
      rw [hc, List.cons_append, lines_newline (List.append_ne_nil_of_right_ne_nil upTo hrest),
        hlines, List.cons_append]
    · -- the line of this character goes on, since the last one is a newline
      have hne : upTo ≠ [] := by
        rintro rfl
        exact hc (h (List.cons_ne_nil c []))
      cases whole with
      | nil => exact absurd hflatten.symm hne
      | cons first others =>
        refine ⟨(c :: first) :: others, lines_cons hc hlines, ?_, ?_⟩
        · rw [List.flatten_cons, List.cons_append, ← List.flatten_cons, hflatten]
        · rw [List.count_cons_of_ne hc, ← hlength, List.length_cons, List.length_cons]

/-- Characters other than a newline go with the line of what is behind them. -/
theorem lines_append {onLine cs first : List Char} {others : List (List Char)} (h : '\n' ∉ onLine)
    (hcs : lines cs = first :: others) : lines (onLine ++ cs) = (onLine ++ first) :: others := by
  induction onLine with
  | nil => exact hcs
  | cons c onLine ih =>
    rw [List.mem_cons, not_or] at h
    exact lines_cons (Ne.symm h.1) (ih h.2)

theorem newline_notMem_lastLine (cs : List Char) : '\n' ∉ lastLine cs := by
  intro hmem
  simpa using List.mem_rtakeWhile_imp hmem

theorem lastLine_concat {c : Char} (hc : c ≠ '\n') (cs : List Char) :
    lastLine (cs ++ [c]) = lastLine cs ++ [c] :=
  List.rtakeWhile_concat_pos _ _ _ (by simpa using hc)

/-- A text is cut behind its last newline, up to which the lines are whole. -/
theorem exists_eq_append_lastLine (cs : List Char) :
    ∃ upTo, cs = upTo ++ lastLine cs ∧ (∀ hne : upTo ≠ [], upTo.getLast hne = '\n') ∧
      upTo.count '\n' = cs.count '\n' := by
  have hcut : cs.rdropWhile (· ≠ '\n') ++ lastLine cs = cs :=
    List.rdropWhile_append_rtakeWhile
  refine ⟨cs.rdropWhile (· ≠ '\n'), hcut.symm, fun hne => ?_, ?_⟩
  · simpa using List.rdropWhile_last_not _ cs hne
  · conv => rhs; rw [← hcut]
    rw [List.count_append, List.count_eq_zero_of_not_mem (newline_notMem_lastLine cs), Nat.add_zero]

/-- The lines before a character are those that its line is behind, and what is before it on its
    line is what is behind the last newline. -/
theorem exists_lines_at (front : List Char) (c : Char) (back : List Char) :
    ∃ before more after, lines (front ++ c :: back) = before ++ (lastLine front ++ more) :: after ∧
      more ≠ [] ∧ (back = [] → more = [c] ∧ after = []) ∧
      before.flatten.length + (lastLine front).length = front.length ∧
      before.length = front.count '\n' := by
  obtain ⟨upTo, hfront, hlast, hcount⟩ := exists_eq_append_lastLine front
  obtain ⟨more, after, hmore, hne⟩ := exists_lines_cons (List.cons_ne_nil c back)
  have hline := lines_append (newline_notMem_lastLine front) hmore
  have hrest : lastLine front ++ c :: back ≠ [] := by simp
  obtain ⟨before, hlines, hflatten, hlength⟩ := exists_lines_append hrest hlast
  refine ⟨before, more, after, ?_, hne, ?_, ?_, hlength.trans hcount⟩
  · conv => lhs; rw [hfront]
    rw [List.append_assoc, hlines, hline]
  · rintro rfl
    cases hmore
    exact ⟨rfl, rfl⟩
  · conv => rhs; rw [hfront]
    rw [hflatten, List.length_append]

end Text

/-! ## Locators -/

namespace Report

/-- What is known of a locator. A range of characters is at the line and column of its first one,
    counted from one. A range behind the last character is on the last line. -/
structure Locator.Lawful (locate : Locator) : Prop where
  locate_eq : ∀ (text : List Char) (before after : List (List Char)) (front back : List Char),
    Text.lines text = before ++ (front ++ back) :: after → back ≠ [] ∨ after = [] →
    ∀ stop, locate text (before.flatten.length + front.length, stop) =
      (before.length + 1, front.length + 1)

/-- The place of a character on the first line. -/
theorem placeFrom_first {text : List Char} {after : List (List Char)} {front back : List Char}
    (h : Text.lines text = (front ++ back) :: after) (hback : back ≠ [] ∨ after = [])
    (line column : Nat) :
    placeFrom line column front.length text = (line, column + front.length) := by
  fun_induction Text.lines text generalizing front column with
  | case1 =>
    obtain ⟨rfl, -⟩ := List.append_eq_nil_iff.1 (List.cons.inj h).1.symm
    rfl
  | case2 c =>
    rcases List.singleton_eq_append_iff.1 (List.cons.inj h).1 with ⟨rfl, -⟩ | ⟨rfl, -⟩
    · rfl
    · simp [placeFrom]
  | case3 d cs ih =>
    obtain ⟨hline, rfl⟩ := List.cons.inj h
    obtain rfl : front = [] := by
      rcases List.singleton_eq_append_iff.1 hline with ⟨rfl, -⟩ | ⟨-, rfl⟩
      · rfl
      · exact absurd (hback.resolve_left (by simp)) (Text.lines_ne_nil _)
    rfl
  | case4 c d cs hc ih =>
    obtain ⟨first, others, hlines⟩ := List.exists_cons_of_ne_nil (Text.lines_ne_nil (d :: cs))
    rw [hlines, List.modifyHead_cons] at h
    obtain ⟨hline, rfl⟩ := List.cons.inj h
    cases front with
    | nil => rfl
    | cons c' front =>
      obtain ⟨rfl, rfl⟩ := List.cons.inj hline
      rw [List.length_cons, placeFrom, if_neg (by simp [hc]), ih hlines, Nat.add_right_comm]
      rfl

/-- The place of a character on a later line. -/
theorem placeFrom_later {text : List Char} {first : List Char} {before after : List (List Char)}
    {front back : List Char}
    (h : Text.lines text = first :: before ++ (front ++ back) :: after)
    (hback : back ≠ [] ∨ after = []) (line column : Nat) :
    placeFrom line column ((first :: before).flatten.length + front.length) text =
      (line + (before.length + 1), 1 + front.length) := by
  fun_induction Text.lines text generalizing first before line column with
  | case1 => simp at h
  | case2 c => simp at h
  | case3 d cs ih =>
    obtain ⟨rfl, hlines⟩ := List.cons.inj h
    have hstep : placeFrom line column ((['\n'] :: before).flatten.length + front.length)
        ('\n' :: d :: cs) =
          placeFrom (line + 1) 1 (before.flatten.length + front.length) (d :: cs) := by
      rw [List.flatten_cons, List.length_append, List.length_singleton, Nat.add_assoc,
        Nat.add_comm 1, placeFrom]
      rfl
    rw [hstep]
    cases before with
    | nil =>
      rw [List.flatten_nil, List.length_nil, List.length_nil, Nat.zero_add, Nat.zero_add,
        placeFrom_first hlines hback]
    | cons second before =>
      rw [ih hlines, List.length_cons, Nat.add_assoc, Nat.add_comm 1]
  | case4 c d cs hc ih =>
    obtain ⟨first', others, hlines⟩ := List.exists_cons_of_ne_nil (Text.lines_ne_nil (d :: cs))
    rw [hlines, List.modifyHead_cons, List.cons_append] at h
    obtain ⟨rfl, rfl⟩ := List.cons.inj h
    rw [List.flatten_cons, List.cons_append, List.length_cons, Nat.add_right_comm, placeFrom,
      if_neg (by simp [hc]), ← List.flatten_cons, ih hlines]

/-- The standard locator is lawful. -/
theorem Locator.standard_lawful : Locator.standard.Lawful := by
  refine ⟨fun text before after front back h hback stop => ?_⟩
  rw [standard, place]
  cases before with
  | nil =>
    rw [List.flatten_nil, List.length_nil, List.length_nil, Nat.zero_add, Nat.zero_add,
      placeFrom_first h hback, Nat.add_comm 1]
  | cons first before =>
    rw [placeFrom_later h hback, List.length_cons, Nat.add_comm 1, Nat.add_comm 1]

namespace Locator.Lawful

variable {locate : Locator} (lawful : locate.Lawful)

include lawful

/-- The line and column of a character by the newlines before it. -/
theorem locate_char (front : List Char) (c : Char) (back : List Char) (stop : Nat) :
    locate (front ++ c :: back) (front.length, stop) =
      (1 + front.count '\n', 1 + (Text.lastLine front).length) := by
  obtain ⟨before, more, after, hlines, hmore, -, hlength, hcount⟩ :=
    Text.exists_lines_at front c back
  rw [← hlength, lawful.locate_eq _ _ _ _ _ hlines (.inl hmore), hcount, Nat.add_comm 1,
    Nat.add_comm 1]

/-- Behind the last character of a text the line is the one of this character. -/
theorem locate_end (front : List Char) (c : Char) (stop : Nat) :
    locate (front ++ [c]) (front.length + 1, stop) =
      (1 + front.count '\n', 2 + (Text.lastLine front).length) := by
  obtain ⟨before, more, after, hlines, -, hend, hlength, hcount⟩ := Text.exists_lines_at front c []
  obtain ⟨rfl, rfl⟩ := hend rfl
  have hlocate := lawful.locate_eq _ before [] (Text.lastLine front ++ [c]) []
    (by rw [hlines, List.append_nil]) (.inr rfl) stop
  rw [List.length_append, List.length_singleton, ← Nat.add_assoc, hlength, hcount] at hlocate
  rw [hlocate, Nat.add_comm 1, Nat.add_comm 2]

end Locator.Lawful

end Report

/-! ## Plain lines -/

/-- A plain line starts with the line of an error. -/
def NamesLine (plain : String) (line : Nat) : Prop :=
  ∃ what, plain = s!"[line {line}] Error" ++ what

namespace NamesLine

variable {plain : String} {line : Nat}

theorem append (h : NamesLine plain line) (more : String) : NamesLine (plain ++ more) line := by
  obtain ⟨what, rfl⟩ := h
  exact ⟨what ++ more, String.append_assoc⟩

theorem of_eq {tail : String} (what : String) (h : tail = "] Error" ++ what) :
    NamesLine ("[line " ++ toString line ++ tail) line :=
  ⟨what, by rw [h, ← String.append_assoc]; rfl⟩

end NamesLine

theorem LexicalErrorKind.namesLine_plainAt (kind : LexicalErrorKind) (line : Nat) :
    NamesLine (kind.plainAt line) line := by
  cases kind with
  | unrecognized c => exact (NamesLine.of_eq ": Unexpected character: " rfl).append _
  | unclosedString => exact .of_eq ": Unterminated string." rfl

theorem ParseErrorKind.namesLine_plainAt (kind : ParseErrorKind) (line : Nat) :
    NamesLine (kind.plainAt line) line := by
  cases kind with
  | unexpectedToken actual expected =>
    exact ((((NamesLine.of_eq ": Expected " rfl).append _).append _).append _).append _
  | notAnExpression actual | notAValue actual | notAStatement actual =>
    exact ((NamesLine.of_eq " at " rfl).append _).append _
  | unexpectedEnd => exact .of_eq " at end: Unexpected EOF." rfl
  | lexical e => exact e.kind.namesLine_plainAt line

/-! ## Texts with errors -/

/-- With a character other than a newline the lines are fewer than the bytes, and a word counts
    them. -/
theorem LineIndex.count_lt_of_mem {source : String} (small : source.utf8ByteSize < 4294967296)
    {c : Char} (hmem : c ∈ source.toList) (hc : c ≠ '\n') :
    (ofText source.toList).count < 4294967296 := by
  obtain ⟨b, hb⟩ := List.exists_mem_of_ne_nil _ (String.utf8EncodeChar_ne_nil (c := c))
  have hlt : (Text.bytes source.toList).count Text.newlineByte <
      (Text.bytes source.toList).length :=
    List.count_lt_length_iff.2 ⟨b, List.mem_flatMap.2 ⟨c, hmem, hb⟩, fun heq =>
      Text.newlineByte_notMem hc (heq ▸ hb)⟩
  rw [Text.length_bytes, Text.byteCount_toList] at hlt
  rw [count_ofText]
  omega

/-- A recognizer reads newlines up to the end of the file. -/
theorem Recognizer.stuckAt?_newlines {xs : List Item} {finish : Token}
    (h : ∀ x ∈ xs, ∃ front, x = .token (.newlineBehind front)) (hfinish : finish.kind = .endOfFile) :
    stuckAt? (.between 0) (xs ++ [.token finish]) = none := by
  induction xs with
  | nil =>
    have hstep : stepItem (.between 0) (.token finish) = some .accepted := by
      change step (.between 0) finish.kind = _
      rw [hfinish]
      rfl
    rw [List.nil_append, stuckAt?_cons_of_step hstep]
    rfl
  | cons x xs ih =>
    obtain ⟨front, rfl⟩ := h x List.mem_cons_self
    exact ih fun y hy => h y (List.mem_cons_of_mem _ hy)

namespace Stream

variable {source : String}

/-- A lexical error does not stand at a newline. -/
theorem exists_ne_newline_of_error {e : LexicalError} (h : .error e ∈ (ofString source).items) :
    ∃ c ∈ source.toList, c ≠ '\n' := by
  obtain ⟨front, c, rest, htext, hitem⟩ := exists_shape_of_mem h
  refine ⟨c, htext ▸ by simp, ?_⟩
  rintro rfl
  rw [item?_newline] at hitem
  cases hitem

/-- Before the end of the file an item starts at a character. -/
theorem exists_charRange_of_mem (small : source.utf8ByteSize < 4294967296) {x : Item}
    (hx : x ∈ (ofString source).items) :
    ∃ front c back stop, source.toList = front ++ c :: back ∧
      x.span.first = Text.byteCount front ∧
      x.span.charRange source.toList = (front.length, stop) ∧
      x.span ≠ (ofString source).finish.span := by
  have hsmall : 0 + Text.byteCount source.toList < 4294967296 := by
    rwa [Text.byteCount_toList, Nat.zero_add]
  obtain ⟨front, lexeme, back, htext, hne, hfirst, hstop, -⟩ :=
    (tiles_items source).exists_bounds hsmall hx
  rw [Nat.zero_add] at hfirst hstop
  have hrange := (Span.slice?_of_bounds back hfirst hstop).2
  obtain ⟨c, more, rfl⟩ := List.exists_cons_of_ne_nil hne
  refine ⟨front, c, more ++ back, _, by rw [htext, List.append_assoc]; rfl, hfirst,
    htext ▸ hrange, fun heq => ?_⟩
  have hlt := (tiles_items source).first_lt_stop hsmall hx
  rw [heq, (bounds_finish small).1, (bounds_finish small).2] at hlt
  omega

theorem charRange_finish (small : source.utf8ByteSize < 4294967296) :
    (ofString source).finish.span.charRange source.toList =
      (source.toList.length, source.toList.length) := by
  obtain ⟨hfirst, hstop⟩ := bounds_finish small
  have hstop' : (ofString source).finish.span.stop =
      Text.byteCount source.toList + Text.byteCount [] := hstop
  have hrange := (Span.slice?_of_bounds [] hfirst hstop').2
  rwa [List.append_nil, List.append_nil] at hrange

end Stream

/-- A text that is not parsed has characters other than newlines. -/
theorem Program.exists_ne_newline_of_parse_error {source : String} {e : ParseError}
    (h : parse source = .error e) : ∃ c ∈ source.toList, c ≠ '\n' := by
  obtain ⟨x, hstuck, -⟩ := stuckAt?_of_parse_error h
  by_contra! hall
  have hnewlines : ∀ x ∈ (Stream.ofString source).items,
      ∃ front, x = .token (.newlineBehind front) := by
    intro x hx
    obtain ⟨front, c, rest, htext, hitem⟩ := Stream.exists_shape_of_mem hx
    obtain rfl : c = '\n' := hall c (htext ▸ by simp)
    rw [Stream.item?_newline] at hitem
    exact ⟨front, (Option.some.inj hitem).symm⟩
  have hnone : (Stream.ofString source).stuckAt? (.between 0) = none :=
    Recognizer.stuckAt?_newlines hnewlines rfl
  rw [hnone] at hstuck
  cases hstuck

/-! ## The place of an error -/

/-- The report on a syntax error points at the item at which the error stands. -/
theorem ParseError.At.reportBy_eq {e : ParseError} {x : Item} (h : e.At x)
    (locate : Report.Locator) (path : String) (text : List Char) :
    e.reportBy locate path text =
      .onSpan locate path text x.span e.kind.caption.1 e.kind.caption.2 := by
  unfold ParseError.reportBy
  split
  · next l hl =>
    obtain rfl := (h.lexical l).1 hl
    rw [hl]
    rfl
  · rw [h.span]

namespace Report

/-- What an annotated and a plain report say of the place of an error at a span, behind some
    characters. -/
structure Places (annotated : Report) (plain path source : String) (span : Span)
    (front : List Char) (line column plainLine : Nat) : Prop where
  location : annotated.location = s!"{path}:{line}:{column}"
  plain : NamesLine plain plainLine
  front_prefix : front <+: source.toList
  first_eq : span.first = Text.byteCount front
  /-- The plain line is the one that the index gives as a word. -/
  index : ((LineIndex.ofText source.toList).lineWordAt span.first).toNat = plainLine
  /-- The lines are the same, and the column counts the characters behind the last newline. -/
  same : ¬(span = (Stream.ofString source).finish.span ∧ source.toList.getLast? = some '\n') →
    line = plainLine ∧ column = 1 + (Text.lastLine front).length
  /-- At the end of a file that ends with a newline the lines differ by one. -/
  final : span = (Stream.ofString source).finish.span → source.toList.getLast? = some '\n' →
    line + 1 = plainLine

/-- An annotated and a plain report on the error at a span name the same place. -/
def SamePlace (annotated : Report) (plain path source : String) (span : Span) : Prop :=
  ∃ front line column plainLine,
    annotated.Places plain path source span front line column plainLine

variable {locate : Locator} {source : String}

/-- In a text with an error the index gives the line of an item as a word. -/
theorem toNat_lineWordAt_of_mem (small : source.utf8ByteSize < 4294967296)
    (hother : ∃ c ∈ source.toList, c ≠ '\n') {x : Item}
    (hx : x ∈ (Stream.ofString source).toList) :
    ((LineIndex.ofText source.toList).lineWordAt x.span.first).toNat = x.line := by
  obtain ⟨c, hmem, hc⟩ := hother
  rw [LineIndex.toNat_lineWordAt (LineIndex.count_lt_of_mem small hmem hc),
    Stream.line_eq_lineAt small hx]

variable (lawful : locate.Lawful) (small : source.utf8ByteSize < 4294967296)
  (hother : ∃ c ∈ source.toList, c ≠ '\n')

include lawful small hother

/-- The reports on an item before the end of the file name the same place. -/
theorem samePlace_of_mem {x : Item} (hx : x ∈ (Stream.ofString source).items) {plain : String}
    (hplain : NamesLine plain x.line) (path title label : String) :
    (onSpan locate path source.toList x.span title label).SamePlace plain path source x.span := by
  have hmem : x ∈ (Stream.ofString source).toList := List.mem_append_left _ hx
  obtain ⟨front, c, back, stop, htext, hfirst, hrange, hne⟩ :=
    Stream.exists_charRange_of_mem small hx
  have hline : x.line = 1 + front.count '\n' := by
    rw [Stream.line_eq_lineAt small hmem, hfirst, htext, LineIndex.lineAt_byteCount]
  refine ⟨front, x.line, 1 + (Text.lastLine front).length, x.line, ?location, hplain,
    ⟨c :: back, htext.symm⟩, hfirst, toNat_lineWordAt_of_mem small hother hmem, fun _ => ⟨rfl, rfl⟩,
    fun hfinish => absurd hfinish hne⟩
  rw [onSpan, hrange, htext, lawful.locate_char, hline]

/-- The reports on the end of the file name the same place, if it does not end with a newline. -/
theorem samePlace_finish {plain : String}
    (hplain : NamesLine plain (Stream.ofString source).finish.line) (path title label : String) :
    (onSpan locate path source.toList (Stream.ofString source).finish.span title label).SamePlace
      plain path source (Stream.ofString source).finish.span := by
  have hmem : .token (Stream.ofString source).finish ∈ (Stream.ofString source).toList := by
    simp [Stream.toList]
  have hfirst := (Stream.bounds_finish small).1
  have hindex := toNat_lineWordAt_of_mem small hother hmem
  have hline : (Stream.ofString source).finish.line = 1 + source.toList.count '\n' := by
    have hat := LineIndex.lineAt_byteCount source.toList []
    rw [List.append_nil, ← hfirst] at hat
    exact (Stream.line_eq_lineAt small hmem).trans hat
  obtain ⟨front, c, htext⟩ : ∃ front c, source.toList = front ++ [c] := by
    rcases List.eq_nil_or_concat source.toList with hnil | ⟨front, c, htext⟩
    · simp [hnil] at hother
    · exact ⟨front, c, htext.trans List.concat_eq_append⟩
  have hlocate : locate source.toList ((Stream.ofString source).finish.span.charRange source.toList)
      = (1 + front.count '\n', 2 + (Text.lastLine front).length) := by
    rw [Stream.charRange_finish small, htext, List.length_append, List.length_singleton,
      lawful.locate_end]
  refine ⟨source.toList, 1 + front.count '\n', 2 + (Text.lastLine front).length,
    (Stream.ofString source).finish.line, by rw [onSpan, hlocate], hplain, List.prefix_rfl, hfirst,
    hindex, fun hlast => ?same, fun _ hlast => ?final⟩
  case same =>
    have hc : c ≠ '\n' := by
      rintro rfl
      exact hlast ⟨rfl, by rw [htext, List.getLast?_concat]⟩
    rw [hline, htext, List.count_append, List.count_singleton, if_neg (by simpa using hc),
      Text.lastLine_concat hc, List.length_append, List.length_singleton]
    omega
  case final =>
    rw [htext, List.getLast?_concat] at hlast
    cases hlast
    rw [hline, htext, List.count_append, List.count_singleton_self, Nat.add_assoc]

end Report

/-- **Reports agree on places.** Wherever a scan or a parse has an error, the annotated report, with
    any lawful locator, and the plain one name the same line, and the column of the annotated one
    counts the characters behind the last newline. The end of a file that ends with a newline is the
    only exception, and no lexical error stands there. -/
theorem Report.samePlace {locate : Report.Locator} (lawful : locate.Lawful) {source : String}
    (small : source.utf8ByteSize < 4294967296) (path : String) :
    (∀ e, .error e ∈ (Stream.ofString source).items →
      (e.reportBy locate path source.toList).SamePlace e.plain path source e.span ∧
        e.span ≠ (Stream.ofString source).finish.span) ∧
    ∀ e, Program.parse source = .error e →
      (e.reportBy locate path source.toList).SamePlace e.plain path source e.span := by
  refine ⟨fun e he => ⟨?lexical, ?notFinish⟩, fun e he => ?syntactic⟩
  case lexical =>
    exact samePlace_of_mem lawful small (Stream.exists_ne_newline_of_error he) he
      (e.kind.namesLine_plainAt e.line) _ _ _
  case notFinish =>
    obtain ⟨front, c, back, stop, -, -, -, hne⟩ := Stream.exists_charRange_of_mem small he
    exact hne
  case syntactic =>
    have hother := Program.exists_ne_newline_of_parse_error he
    obtain ⟨x, hstuck, hat⟩ := Program.stuckAt?_of_parse_error he
    obtain ⟨before, q, after, hitems, -⟩ := Recognizer.exists_of_stuckAt? hstuck
    have hplain : NamesLine e.plain x.line := hat.line ▸ e.kind.namesLine_plainAt e.line
    have hmem : x ∈ (Stream.ofString source).toList := by
      rw [hitems]
      simp
    rw [hat.reportBy_eq, hat.span]
    rcases List.mem_append.1 hmem with hx | hx
    · exact samePlace_of_mem lawful small hother hx hplain _ _ _
    · obtain rfl := List.mem_singleton.1 hx
      exact samePlace_finish lawful small hother hplain _ _ _

/-- An unclosed string, and the end of a file that ends with a newline. -/
theorem Report.samePlace_standard :
    (∃ e, .error e ∈ (Stream.ofString "あ\n※１\n「").items ∧
      (e.report "a" "あ\n※１\n「".toList).location = "a:3:1" ∧
      e.plain = "[line 3] Error: Unterminated string." ∧
      (e.report "a" "あ\n※１\n「".toList).SamePlace e.plain "a" "あ\n※１\n「" e.span) ∧
    ∃ e, Program.parse "あ\n※１\n" = .error e ∧
      (e.report "a" "あ\n※１\n".toList).location = "a:2:4" ∧
      e.plain = "[line 3] Error at end: Unexpected EOF." ∧
      (e.report "a" "あ\n※１\n".toList).SamePlace e.plain "a" "あ\n※１\n" e.span := by
  have hlexical : .error ⟨.unclosedString, ⟨11, 3⟩, 3⟩ ∈ (Stream.ofString "あ\n※１\n「").items := by
    decide +kernel
  have hsyntactic : Program.parse "あ\n※１\n" = .error ⟨.unexpectedEnd, ⟨11, 0⟩, 3⟩ := by
    decide +kernel
  refine ⟨⟨_, hlexical, by decide +kernel, by decide +kernel, ?_⟩,
    ⟨_, hsyntactic, by decide +kernel, by decide +kernel, ?_⟩⟩
  · exact ((samePlace Locator.standard_lawful (by decide +kernel) "a").1 _ hlexical).1
  · exact (samePlace Locator.standard_lawful (by decide +kernel) "a").2 _ hsyntactic

end StageScript
