import Mathlib.Order.Monotone.Defs
import StageScript.Proofs.PrintedLines

set_option autoImplicit false

/-! # Lines and newlines

The line of a position counts the newlines below it. The table of line starts is made from
characters, and is the one that a pass over the bytes makes (`LineIndex.startsFrom_eq`), since the
byte of a newline is in no other character. The scanner makes a token of every newline and leaves
none to anything else, so that the newline tokens before an item count its line too. Main statement:
`LineIndex.newlines_counted`. -/

namespace StageScript

/-! ## Bytes of a text -/

namespace Text

/-- The bytes of the UTF-8 form of some characters. -/
def bytes (cs : List Char) : List UInt8 := cs.flatMap String.utf8EncodeChar

/-- The byte of a newline. -/
def newlineByte : UInt8 := 10

theorem toList_toUTF8 (s : String) : s.toUTF8.data.toList = bytes s.toList := by
  conv => lhs; rw [← String.ofList_toList (s := s)]
  rw [String.toUTF8_eq_toByteArray]
  exact List.toList_data_toByteArray

theorem length_bytes (cs : List Char) : (bytes cs).length = byteCount cs := by
  induction cs with
  | nil => rfl
  | cons c cs ih =>
    rw [bytes, List.flatMap_cons, List.length_append, String.length_utf8EncodeChar, byteCount_cons,
      ← ih, bytes]

/-- No other character has the byte of a newline: one of several bytes has larger bytes only. -/
theorem newlineByte_notMem {c : Char} (h : c ≠ '\n') : newlineByte ∉ String.utf8EncodeChar c := by
  have hv : c.val.toNat ≠ 10 := fun hv => h (Char.toNat_inj.mp hv)
  have hbyte : ∀ {n : Nat}, newlineByte = UInt8.ofNat n → n % 256 = 10 := by
    intro n hn
    have := congrArg UInt8.toNat hn
    rw [UInt8.toNat_ofNat'] at this
    exact this.symm
  intro hmem
  unfold String.utf8EncodeChar at hmem
  dsimp only at hmem
  split at hmem
  · have := hbyte (List.mem_singleton.1 hmem)
    omega
  · split at hmem
    · rw [List.mem_pair] at hmem
      rcases hmem with hmem | hmem <;> have := hbyte hmem <;> omega
    · split at hmem
      · simp only [List.mem_cons, List.not_mem_nil, or_false] at hmem
        rcases hmem with hmem | hmem | hmem <;> have := hbyte hmem <;> omega
      · simp only [List.mem_cons, List.not_mem_nil, or_false] at hmem
        rcases hmem with hmem | hmem | hmem | hmem <;> have := hbyte hmem <;> omega

theorem utf8EncodeChar_newline : String.utf8EncodeChar '\n' = [newlineByte] := by decide

end Text

/-! ## The table of lines -/

namespace LineIndex

open Text (newlineByte)

/-- The positions behind the newlines among some bytes, the first of which is at `start`. -/
def startsOfBytes (start : Nat) (bytes : List UInt8) : List Nat :=
  ((bytes.zipIdx start).filter (·.1 == newlineByte)).map (·.2 + 1)

theorem startsOfBytes_append (start : Nat) (bs cs : List UInt8) :
    startsOfBytes start (bs ++ cs) =
      startsOfBytes start bs ++ startsOfBytes (start + bs.length) cs := by
  rw [startsOfBytes, List.zipIdx_append, List.filter_append, List.map_append, startsOfBytes,
    startsOfBytes]

theorem startsOfBytes_eq_nil {start : Nat} {bytes : List UInt8} (h : newlineByte ∉ bytes) :
    startsOfBytes start bytes = [] := by
  rw [startsOfBytes, List.map_eq_nil_iff, List.filter_eq_nil_iff]
  intro entry hentry hbyte
  rw [beq_iff_eq] at hbyte
  exact h (hbyte ▸ List.fst_mem_of_mem_zipIdx hentry)

/-- The line starts of a text are those that its bytes show. -/
theorem startsFrom_eq (start : Nat) (cs : List Char) :
    startsFrom start cs = startsOfBytes start (Text.bytes cs) := by
  induction cs generalizing start with
  | nil => rfl
  | cons c cs ih =>
    have hbytes : Text.bytes (c :: cs) = String.utf8EncodeChar c ++ Text.bytes cs := rfl
    rw [hbytes, startsOfBytes_append, String.length_utf8EncodeChar, ← ih, startsFrom]
    split
    · next hc =>
      rw [hc, Text.utf8EncodeChar_newline]
      rfl
    · next hc => rw [startsOfBytes_eq_nil (Text.newlineByte_notMem hc), List.nil_append]

theorem startsOfBytes_cons (start : Nat) (b : UInt8) (bytes : List UInt8) :
    startsOfBytes start (b :: bytes) =
      if b = newlineByte then (start + 1) :: startsOfBytes (start + 1) bytes
      else startsOfBytes (start + 1) bytes := by
  rw [startsOfBytes, List.zipIdx_cons, List.filter_cons]
  by_cases hb : b = newlineByte <;> simp [hb, startsOfBytes]

/-- Up to a position as many lines have started as there are newlines below it. -/
theorem length_takeWhile_startsOfBytes (offset start : Nat) (bytes : List UInt8) :
    ((startsOfBytes start bytes).takeWhile (· ≤ offset)).length =
      (bytes.take (offset - start)).count newlineByte := by
  induction bytes generalizing start with
  | nil => simp [startsOfBytes]
  | cons b bytes ih =>
    have hrest := ih (start + 1)
    by_cases hle : start + 1 ≤ offset
    · have hoffset : offset - start = (offset - (start + 1)) + 1 := by omega
      rw [startsOfBytes_cons, hoffset, List.take_succ_cons]
      split
      · next hb =>
        rw [List.takeWhile_cons, if_pos (decide_eq_true hle), List.length_cons, hrest, hb,
          List.count_cons_self]
      · next hb => rw [hrest, List.count_cons_of_ne hb]
    · -- the position is not beyond this byte, so that no later line has started
      have hnone : offset - start = 0 := by omega
      have hnone' : offset - (start + 1) = 0 := by omega
      rw [hnone', List.take_zero, List.count_nil] at hrest
      rw [startsOfBytes_cons, hnone, List.take_zero, List.count_nil]
      split
      · rw [List.takeWhile_cons, if_neg (by simpa using hle), List.length_nil]
      · exact hrest

theorem length_startsOfBytes (start : Nat) (bytes : List UInt8) :
    (startsOfBytes start bytes).length = bytes.count newlineByte := by
  induction bytes generalizing start with
  | nil => rfl
  | cons b bytes ih =>
    rw [startsOfBytes_cons]
    split
    · next hb => rw [List.length_cons, ih, hb, List.count_cons_self]
    · next hb => rw [ih, List.count_cons_of_ne hb]

theorem pairwise_startsFrom (start : Nat) (cs : List Char) :
    (startsFrom start cs).Pairwise (· < ·) := by
  induction cs generalizing start with
  | nil => exact .nil
  | cons c cs ih =>
    rw [startsFrom]
    split
    · exact .cons (fun _ => lt_of_mem_startsFrom) (ih _)
    · exact ih _

variable (text : List Char)

theorem count_ofText : (ofText text).count = 1 + (Text.bytes text).count newlineByte := by
  rw [count, ofText, List.length_cons, startsFrom_eq, length_startsOfBytes, Nat.add_comm]

/-- The line of a position counts the newlines below it, and never the last line too many. -/
theorem lineAt_ofText (offset : Nat) :
    (ofText text).lineAt offset = 1 + ((Text.bytes text).take offset).count newlineByte := by
  have hle : ((Text.bytes text).take offset).count newlineByte ≤
      (Text.bytes text).count newlineByte := (List.take_sublist _ _).count_le _
  have hlength := length_takeWhile_startsOfBytes offset 0 (Text.bytes text)
  rw [Nat.sub_zero] at hlength
  rw [lineAt, count_ofText, ofText, List.takeWhile_cons, if_pos (by simp), List.length_cons,
    startsFrom_eq, hlength]
  omega

/-- Where the number of lines is a word, words count the lines. -/
theorem toNat_lineWordAt {index : LineIndex} (small : index.count < 4294967296) (offset : Nat) :
    (index.lineWordAt offset).toNat = index.lineAt offset := by
  have hle : (index.starts.takeWhile (· ≤ offset)).length ≤ index.count :=
    (List.takeWhile_prefix _).length_le
  have hcount : index.countWord.toNat = index.count := Nat.mod_eq_of_lt small
  have hlines : (index.starts.takeWhile (· ≤ offset)).length.toUInt32.toNat =
      (index.starts.takeWhile (· ≤ offset)).length := Nat.mod_eq_of_lt (by omega)
  rw [lineWordAt, lineAt, UInt32.toNat_min, UInt32.toNat_max, hcount, hlines]
  rfl

end LineIndex

/-! ## Tokens of newlines -/

/-- The token of the newline behind some characters. -/
def Token.newlineBehind (front : List Char) : Token :=
  ⟨.newline, Span.between (Text.byteCount front) (Text.byteCount front + 1),
    1 + front.count '\n', "\n"⟩

namespace Scanner

/-- Characters of which no fewer bytes are taken start with those of which fewer are. -/
theorem exists_of_byteCount_le {before tail front back : List Char}
    (h : before ++ tail = front ++ back) (hle : Text.byteCount before ≤ Text.byteCount front) :
    ∃ more, front = before ++ more ∧ tail = more ++ back := by
  rcases List.append_eq_append_iff.1 h with hmore | ⟨more, hbefore, hback⟩
  · exact hmore
  · cases more with
    | nil => exact ⟨[], by simpa using hbefore.symm, by simpa using hback.symm⟩
    | cons c more =>
      have hpos := Text.byteCount_pos (List.cons_ne_nil c more)
      rw [hbefore, Text.byteCount_append] at hle
      omega

/-- Of the lexeme that starts with a character only this character can be a newline. -/
theorem eq_nil_of_lexeme {c : Char} {rest more after : List Char}
    (h : c :: rest.take (shape c rest).2 = more ++ '\n' :: after) : more = [] ∧ c = '\n' := by
  cases more with
  | nil => exact ⟨rfl, (List.cons.inj h).1⟩
  | cons d more =>
    refine absurd ?_ (newline_notMem_take c rest)
    rw [(List.cons.inj h).2]
    simp

namespace Tiles

/-- No newline stands in a comment. -/
theorem not_inComment {o : Nat} {text front back : List Char} {xs : List Item}
    (htext : text = front ++ '\n' :: back) : ¬InComment o text xs front := by
  rintro ⟨start, mark, body, rest, hcomment, hmark, hbody, -, -, hle, hle'⟩
  have hsplit : start ++ ((mark :: body) ++ rest) = front ++ '\n' :: back := by
    rw [← htext, hcomment, List.cons_append]
  obtain ⟨more, rfl, hmore⟩ : ∃ more, front = start ++ more ∧
      (mark :: body) ++ rest = more ++ '\n' :: back := by
    rcases List.append_eq_append_iff.1 hsplit with hmore | ⟨more, rfl, hback⟩
    · exact hmore
    · rw [List.length_append] at hle
      obtain rfl : more = [] := List.length_eq_zero_iff.1 (by omega)
      exact ⟨[], by simp, hback.symm⟩
  rw [List.length_append] at hle'
  have hnewline : '\n' ∉ mark :: body := by
    rw [List.mem_cons, not_or]
    refine ⟨?_, hbody⟩
    rintro rfl
    exact absurd hmark (by decide)
  rcases exists_of_append_eq hmore with ⟨after, heq⟩ | ⟨after, rfl, -⟩
  · exact hnewline (heq ▸ by simp)
  · simp only [List.length_append, List.length_cons] at hle'
    omega

end Tiles

end Scanner

namespace Stream

variable {source : String}

/-- The items of a text tile it. -/
theorem tiles_items (source : String) : Scanner.Tiles 0 source.toList (ofString source).items :=
  Scanner.tiles_itemsAt Scanner.Place.start source.toList

/-- An item is what starts at a character of the text, with the place of that character. -/
theorem exists_shape_of_mem {x : Item} (hx : x ∈ (ofString source).items) :
    ∃ before c rest, source.toList = before ++ c :: rest ∧
      (Scanner.shape c rest).1.item? ⟨Text.byteCount before, 1 + before.count '\n'⟩
        (c :: rest.take (Scanner.shape c rest).2) = some x := by
  obtain ⟨before, c, rest, hbefore, hitem⟩ := Scanner.exists_shape_of_mem hx
  rw [Scanner.Place.afterAll_eq, Scanner.Place.start, Nat.zero_add] at hitem
  exact ⟨before, c, rest, hbefore, hitem⟩

/-- What starts at a newline is the token of it. -/
theorem item?_newline (front rest : List Char) :
    (Scanner.shape '\n' rest).1.item? ⟨Text.byteCount front, 1 + front.count '\n'⟩
      ('\n' :: rest.take (Scanner.shape '\n' rest).2) = some (.token (.newlineBehind front)) := rfl

/-- The token of a newline is that of a newline in the text. -/
theorem exists_eq_newlineBehind {t : Token} (ht : .token t ∈ (ofString source).items)
    (hk : t.kind = .newline) :
    ∃ front back, source.toList = front ++ '\n' :: back ∧ t = .newlineBehind front := by
  obtain ⟨front, c, back, htext, hitem⟩ := exists_shape_of_mem ht
  have hshape : (Scanner.shape c back).1 = .token .newline := by
    rw [← Scanner.Shape.shape_of_item? hitem, Item.shape, hk]
  obtain rfl : c = '\n' := by
    by_contra hc
    exact Scanner.not_isNewline_shape hc back (.inl hshape)
  rw [item?_newline] at hitem
  exact ⟨front, back, htext, (Item.token.inj (Option.some.inj hitem)).symm⟩

variable (small : source.utf8ByteSize < 4294967296)

include small

/-- The item that holds a newline is the token of it. -/
theorem eq_newlineBehind_of_covers {front back : List Char}
    (htext : source.toList = front ++ '\n' :: back) {x : Item} (hx : x ∈ (ofString source).items)
    (hcovers : x.Covers (Text.byteCount front)) : x = .token (.newlineBehind front) := by
  obtain ⟨before, c, rest, hbefore, hitem⟩ := exists_shape_of_mem hx
  have hlexeme : source.toList = before ++ (c :: rest.take (Scanner.shape c rest).2 ++
      rest.drop (Scanner.shape c rest).2) := by
    rw [hbefore, List.cons_append, List.take_append_drop]
  have hsize := Text.byteCount_toList source
  rw [hlexeme, Text.byteCount_append, Text.byteCount_append] at hsize
  obtain ⟨hfirst, hstop⟩ := hcovers
  have hspan : x.span = Span.between (Text.byteCount before) (Text.byteCount before +
      Text.byteCount (c :: rest.take (Scanner.shape c rest).2)) :=
    Scanner.Shape.span_of_item? hitem
  rw [hspan, Span.first_between, Nat.mod_eq_of_lt (by omega)] at hfirst
  rw [hspan, Span.stop_between (by omega) (by omega)] at hstop
  -- the newline stands in the lexeme of the item, and only its first character can be one
  obtain ⟨more, rfl, hmore⟩ := Scanner.exists_of_byteCount_le (hlexeme.symm.trans htext) hfirst
  rw [Text.byteCount_append] at hstop
  rcases Scanner.Tiles.exists_of_append_eq hmore with ⟨after, hafter⟩ | ⟨after, rfl, -⟩
  · obtain ⟨rfl, rfl⟩ := Scanner.eq_nil_of_lexeme hafter
    rw [item?_newline] at hitem
    rw [List.append_nil]
    exact (Option.some.inj hitem).symm
  · rw [Text.byteCount_append] at hstop
    omega

/-- A newline is a token. -/
theorem newlineBehind_mem {front back : List Char}
    (htext : source.toList = front ++ '\n' :: back) :
    .token (.newlineBehind front) ∈ (ofString source).items := by
  by_contra hnot
  have hout : ∀ x ∈ (ofString source).items, ¬x.Covers (0 + Text.byteCount front) := by
    intro x hx hcovers
    rw [Nat.zero_add] at hcovers
    exact hnot (eq_newlineBehind_of_covers small htext hx hcovers ▸ hx)
  have hsmall : 0 + Text.byteCount source.toList < 4294967296 := by
    rwa [Text.byteCount_toList, Nat.zero_add]
  rcases (tiles_items source).isGap_or_inComment hsmall htext hout with hgap | hcomment
  · exact absurd hgap (by decide)
  · exact Scanner.Tiles.not_inComment htext hcomment

end Stream

/-! ## Lines of items -/

/-- The line of an item counts the newline tokens before it. -/
theorem Item.LinesFrom.line_eq {line : Nat} {before after : List Item} {x : Item}
    (h : LinesFrom line (before ++ x :: after)) :
    x.line = line + before.countP Parser.isNewline := by
  induction before generalizing line with
  | nil => exact h.1
  | cons y before ih =>
    rw [ih h.2, List.countP_cons]
    split <;> omega

/-- What the index of lines makes of the bytes of a text. -/
structure LineIndex.CountsNewlines (index : LineIndex) (bytes : List UInt8) : Prop where
  /-- The table is that of a pass over the bytes. -/
  starts_eq : index.starts = 0 :: startsOfBytes 0 bytes
  increasing : index.starts.Pairwise (· < ·)
  /-- The line of a position, be it beyond the end, counts the newlines below it. -/
  lineAt_eq : ∀ offset, index.lineAt offset = 1 + (bytes.take offset).count Text.newlineByte
  monotone : Monotone index.lineAt
  bounds : ∀ offset, 1 ≤ index.lineAt offset ∧ index.lineAt offset ≤ index.count
  /-- No line is too large for a word. -/
  word_eq : index.countWord.toNat = index.count ∧
    ∀ offset, (index.lineWordAt offset).toNat = index.lineAt offset

/-- What a scan makes of the newlines of a text, and the index of its lines of the items. -/
structure Stream.CountsNewlines (s : Stream) (text : List Char) (index : LineIndex) : Prop where
  /-- A newline is a token, and in no other item. -/
  newline : ∀ front back, text = front ++ '\n' :: back →
    .token (.newlineBehind front) ∈ s.items ∧
      ∀ x ∈ s.items, x.Covers (Text.byteCount front) → x = .token (.newlineBehind front)
  /-- There are no other tokens of newlines. -/
  only : ∀ t, .token t ∈ s.items → t.kind = .newline →
    ∃ front back, text = front ++ '\n' :: back ∧ t = .newlineBehind front
  /-- No newline is in a comment. -/
  comment : ∀ front back, text = front ++ '\n' :: back →
    ¬Scanner.Tiles.InComment 0 text s.items front
  /-- The line of an item counts the newline tokens before it. -/
  line_eq : ∀ before x after, s.toList = before ++ x :: after →
    index.lineAt x.span.first = 1 + before.countP Parser.isNewline ∧
      x.line = index.lineAt x.span.first
  /-- The end of the file is on the last line. -/
  finish : index.lineAt s.finish.span.first = index.count

/-- The lines of a text whose number is a word count its newlines. -/
theorem LineIndex.countsNewlines {source : String} (small : source.utf8ByteSize < 4294967295) :
    (ofText source.toList).CountsNewlines source.toUTF8.data.toList := by
  rw [Text.toList_toUTF8]
  have hcount := count_ofText source.toList
  have hwords : (ofText source.toList).count < 4294967296 := by
    have hle := List.count_le_length (l := Text.bytes source.toList) (a := Text.newlineByte)
    rw [Text.length_bytes, Text.byteCount_toList] at hle
    omega
  have hline := lineAt_ofText source.toList
  refine ⟨?starts, ?increasing, hline, fun offset later hle => ?monotone, fun offset => ?bounds,
    Nat.mod_eq_of_lt hwords, toNat_lineWordAt hwords⟩
  case starts => rw [ofText, startsFrom_eq]
  case increasing => exact .cons (fun _ => lt_of_mem_startsFrom) (pairwise_startsFrom _ _)
  case monotone =>
    have := (List.take_sublist_take_left hle (l := Text.bytes source.toList)).count_le
      Text.newlineByte
    rw [hline, hline]
    omega
  case bounds =>
    have := (List.take_sublist offset (Text.bytes source.toList)).count_le Text.newlineByte
    rw [hline, hcount]
    omega

/-- **Lines are counted by newlines.** The line of every position counts the newline bytes below
    it. Every newline is a token of its own, so that the line of an item counts the newline tokens
    before it, and the end of the file is on the last line. -/
theorem LineIndex.newlines_counted {source : String} (small : source.utf8ByteSize < 4294967295) :
    (ofText source.toList).CountsNewlines source.toUTF8.data.toList ∧
      (Stream.ofString source).CountsNewlines source.toList (ofText source.toList) := by
  have hsmall : source.utf8ByteSize < 4294967296 := by omega
  refine ⟨countsNewlines small, ?_⟩
  refine
    { newline := fun front back htext => ⟨Stream.newlineBehind_mem hsmall htext, fun x hx hcovers =>
        Stream.eq_newlineBehind_of_covers hsmall htext hx hcovers⟩
      only := fun t ht hk => Stream.exists_eq_newlineBehind ht hk
      comment := fun front back htext => Scanner.Tiles.not_inComment htext
      line_eq := fun before x after hitems => ?line
      finish := ?finish }
  case line =>
    have hmem : x ∈ (Stream.ofString source).toList := hitems ▸ by simp
    have hlines := Stream.linesFrom_ofString source
    rw [Stream.LinesFrom, hitems] at hlines
    have hline := Stream.line_eq_lineAt hsmall hmem
    exact ⟨hline ▸ hlines.line_eq, hline⟩
  case finish =>
    rw [lineAt_ofText, count_ofText, (Stream.bounds_finish hsmall).1, ← Text.length_bytes,
      List.take_length]

/-- A newline behind a comment, one behind an unclosed string, and one at the end of the file. -/
theorem LineIndex.newlines_counted_unclosed :
    "# あ\n「b\n".utf8ByteSize < 4294967295 ∧
      (ofText "# あ\n「b\n".toList).CountsNewlines "# あ\n「b\n".toUTF8.data.toList ∧
      (Stream.ofString "# あ\n「b\n").CountsNewlines "# あ\n「b\n".toList
        (ofText "# あ\n「b\n".toList) :=
  ⟨by decide +kernel, newlines_counted (by decide +kernel)⟩

end StageScript
