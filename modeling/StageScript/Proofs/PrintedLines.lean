import StageScript.Proofs.LineOrder
import StageScript.Proofs.ViablePrefix
import StageScript.Source.Lines

set_option autoImplicit false

/-! # Printed lines

What a plain listing shows of an item is one line (`Token.isLine_plain`,
`LexicalError.isLine_plain`): no text goes over the end of its line, and no number has an end of a
line in it. The number in front of an error is that of the line on which its span starts
(`Stream.line_eq_lineAt`). -/

namespace StageScript

/-! ## Texts on one line -/

namespace Text

/-- There is no end of a line in the text. -/
def IsLine (s : String) : Prop := '\n' ∉ s.toList

instance (s : String) : Decidable (IsLine s) := inferInstanceAs (Decidable ('\n' ∉ s.toList))

@[simp] theorem isLine_append {s t : String} : IsLine (s ++ t) ↔ IsLine s ∧ IsLine t := by
  simp [IsLine]

@[simp] theorem isLine_ofList {cs : List Char} : IsLine (String.ofList cs) ↔ '\n' ∉ cs := by
  simp [IsLine]

theorem newline_notMem_toDigits (n : Nat) : '\n' ∉ Nat.toDigits 10 n := by
  intro h
  exact absurd (Nat.isDigit_of_mem_toDigits (by decide) (by decide) h) (by decide)

theorem isLine_toString (n : Nat) : IsLine (toString n) := by
  simpa [IsLine] using newline_notMem_toDigits n

theorem isLine_unmark? {s t : String} (hs : IsLine s) (h : unmark? s = some t) : IsLine t := by
  obtain ⟨cs, hcs, rfl⟩ := Option.map_eq_some_iff.1 h
  rw [IsLine] at hs
  cases hlist : s.toList with
  | nil =>
    rw [hlist] at hcs
    cases hcs
  | cons c ds =>
    rw [hlist] at hcs hs
    rw [unmarkChars?] at hcs
    split at hcs
    · cases hcs
    · obtain rfl := Option.some.inj hcs
      rw [isLine_ofList]
      exact fun hmem => hs (List.mem_cons_of_mem _ (List.dropLast_subset _ hmem))

end Text

open Text

/-! ## Numbers -/

namespace Decimal

theorem isLine_digits (f : List Char → List Char) (hf : ∀ cs, f cs ⊆ cs) (n : Nat) :
    IsLine (String.ofList (f (Nat.toDigits 10 n))) := by
  rw [isLine_ofList]
  exact fun h => newline_notMem_toDigits n (hf _ h)

theorem isLine_zeros (n : Nat) : IsLine (zeros n) := by
  simp [zeros, List.mem_replicate]

theorem isLine_toPositional (d : Numeral) {wholeEnding : String} (h : IsLine wholeEnding) :
    IsLine (d.toPositional wholeEnding) := by
  have hdigits := isLine_digits id (fun _ => List.Subset.refl _) d.digits
  have hfront := fun n => isLine_digits (List.take n) (List.take_subset n) d.digits
  have hback := fun n => isLine_digits (List.drop n) (List.drop_subset n) d.digits
  rw [id] at hdigits
  rw [Numeral.toPositional]
  split
  · exact isLine_append.2 ⟨isLine_append.2 ⟨hdigits, isLine_zeros _⟩, h⟩
  · split
    · exact isLine_append.2 ⟨isLine_append.2 ⟨hfront _, by decide⟩, hback _⟩
    · exact isLine_append.2 ⟨isLine_append.2 ⟨by decide, isLine_zeros _⟩, hdigits⟩

theorem isLine_toScientific (d : Numeral) : IsLine d.toScientific := by
  have hfront := isLine_digits (List.take 1) (List.take_subset 1) d.digits
  have hback := isLine_digits (List.drop 1) (List.drop_subset 1) d.digits
  have hpower : IsLine (digitText d.leading.natAbs) :=
    isLine_digits id (fun _ => List.Subset.refl _) _
  rw [Numeral.toScientific]
  simp only [isLine_append]
  refine ⟨⟨⟨⟨hfront, ?_⟩, by decide⟩, ?_⟩, hpower⟩
  · split
    · decide
    · exact isLine_append.2 ⟨by decide, hback⟩
  · split <;> decide

theorem isLine_listed (x : Float) : IsLine (listed x) := by
  rw [listed]
  cases Parts.ofFloat x with
  | nan => decide
  | infinite negative => cases negative <;> decide
  | finite negative m q =>
    have hmagnitude : IsLine (if m == 0 then "0" ++ Layout.listing.wholeEnding
        else Layout.listing.write (shortest m q)) := by
      split
      · decide
      · rw [Layout.write]
        split
        · exact isLine_toPositional _ (by decide)
        · exact isLine_toScientific _
    rw [Layout.writeParts]
    split
    · exact isLine_append.2 ⟨by decide, hmagnitude⟩
    · exact hmagnitude

end Decimal

/-! ## Items -/

theorem TokenKind.isLine_name (kind : TokenKind) : IsLine kind.name := by
  cases kind <;> decide

/-- A token is shown on one line, a newline as well. -/
theorem Token.isLine_plain {t : Token} (h : t.kind ≠ .newline → IsLine t.text) :
    IsLine t.plain := by
  have hname := t.kind.isLine_name
  rw [plain]
  split
  · exact isLine_append.2 ⟨hname, by decide⟩
  · exact isLine_append.2 ⟨hname, by decide⟩
  · next hk =>
    have htext := h (by simp [hk])
    have hvalue : IsLine (((Decimal.read? (foldWidth t.text)).map Decimal.listed).getD "null") := by
      cases Decimal.read? (foldWidth t.text) with
      | none => decide
      | some x => exact Decimal.isLine_listed x
    exact isLine_append.2 ⟨isLine_append.2 ⟨isLine_append.2 ⟨by decide, htext⟩, by decide⟩, hvalue⟩
  · next hk =>
    have htext := h (by simp [hk])
    have hvalue : IsLine ((unmark? t.text).getD "") := by
      cases hunmark : unmark? t.text with
      | none => decide
      | some spoken => exact isLine_unmark? htext hunmark
    exact isLine_append.2 ⟨isLine_append.2 ⟨isLine_append.2 ⟨by decide, htext⟩, by decide⟩, hvalue⟩
  · next hnewline _ _ _ =>
    have htext := h hnewline
    exact isLine_append.2 ⟨isLine_append.2 ⟨isLine_append.2 ⟨hname, by decide⟩, htext⟩, by decide⟩

/-- A lexical error is shown on one line, unless it shows the end of one. -/
theorem LexicalErrorKind.isLine_plainAt {kind : LexicalErrorKind} (h : kind ≠ .unrecognized '\n')
    (line : Nat) : IsLine (kind.plainAt line) := by
  have hline := isLine_toString line
  cases kind with
  | unrecognized c =>
    have hc : c ≠ '\n' := fun hc => h (hc ▸ rfl)
    have hshown : IsLine (toString c) := by
      simpa [IsLine, toString] using hc.symm
    simp only [plainAt, isLine_append]
    exact ⟨⟨⟨by decide, hline⟩, by decide⟩, hshown⟩
  | unclosedString =>
    simp only [plainAt, isLine_append]
    exact ⟨⟨by decide, hline⟩, by decide⟩

/-- A syntax error is shown on one line, unless it is a lexical error that shows the end of one. -/
theorem ParseErrorKind.isLine_plainAt {kind : ParseErrorKind}
    (h : ∀ e, kind = .lexical e → e.kind ≠ .unrecognized '\n') (line : Nat) :
    IsLine (kind.plainAt line) := by
  have hline := isLine_toString line
  have hname := TokenKind.isLine_name
  cases kind with
  | lexical e => exact e.kind.isLine_plainAt (h e rfl) line
  | unexpectedToken actual expected =>
    simp only [plainAt, isLine_append]
    exact ⟨⟨⟨⟨⟨⟨by decide, hline⟩, by decide⟩, hname _⟩, by decide⟩, hname _⟩, by decide⟩
  | unexpectedEnd =>
    simp only [plainAt, isLine_append]
    exact ⟨⟨by decide, hline⟩, by decide⟩
  | notAnExpression actual | notAValue actual | notAStatement actual =>
    simp only [plainAt, isLine_append]
    exact ⟨⟨⟨⟨by decide, hline⟩, by decide⟩, hname _⟩, by decide⟩

namespace Stream

variable {source : String}

theorem isLine_plain_of_token {t : Token} (h : .token t ∈ (ofString source).toList) :
    IsLine t.plain := by
  refine t.isLine_plain fun hk => ?_
  rcases List.mem_append.1 h with hitem | hfinish
  · exact (Scanner.lexeme_of_mem hitem).newline_notMem hk
  · cases List.mem_singleton.1 hfinish
    exact List.not_mem_nil

/-- No error is about the end of a line. -/
theorem ne_newline_of_error {e : LexicalError} (h : .error e ∈ (ofString source).toList) :
    e.kind ≠ .unrecognized '\n' := by
  rcases List.mem_append.1 h with hitem | hfinish
  · obtain ⟨before, c, rest, -, hshape⟩ := Scanner.exists_shape_of_mem hitem
    intro hk
    have herror : (Scanner.shape c rest).1 = .error e.kind := by
      cases hs : (Scanner.shape c rest).1 with
      | gap => rw [hs] at hshape; cases hshape
      | token kind => rw [hs] at hshape; cases hshape
      | error kind => rw [hs] at hshape; cases hshape; rfl
    have hc : c = '\n' := by
      by_contra hc
      exact Scanner.not_isNewline_shape hc rest (.inr (hk ▸ herror))
    subst hc
    cases herror
  · cases List.mem_singleton.1 hfinish

end Stream

/-! ## Lines of positions -/

namespace LineIndex

theorem lt_of_mem_startsFrom {offset n : Nat} {cs : List Char} (h : n ∈ startsFrom offset cs) :
    offset < n := by
  induction cs generalizing offset with
  | nil => cases h
  | cons c cs ih =>
    have hpos := c.utf8Size_pos
    have hlater : n ∈ startsFrom (offset + c.utf8Size) cs → offset < n := fun h => by
      have := ih h
      omega
    rw [startsFrom] at h
    split at h
    · rcases List.mem_cons.1 h with rfl | h
      · omega
      · exact hlater h
    · exact hlater h

/-- Behind some characters as many lines have started as there are newlines among them. -/
theorem length_takeWhile_startsFrom (offset : Nat) (front back : List Char) :
    ((startsFrom offset (front ++ back)).takeWhile (· ≤ offset + Text.byteCount front)).length =
      front.count '\n' := by
  induction front generalizing offset with
  | nil =>
    cases hback : startsFrom offset back with
    | nil => simp [hback]
    | cons n ns =>
      have hlt : offset < n := lt_of_mem_startsFrom (hback ▸ List.mem_cons_self)
      have hnot : ¬n ≤ offset := by omega
      simp [hback, hnot]
  | cons c front ih =>
    have hrest := ih (offset + c.utf8Size)
    rw [Nat.add_assoc, ← Text.byteCount_cons] at hrest
    rw [List.cons_append, startsFrom]
    split
    · next hc =>
      have hle : offset + c.utf8Size ≤ offset + Text.byteCount (c :: front) := by
        rw [Text.byteCount_cons]
        omega
      rw [List.takeWhile_cons, if_pos (decide_eq_true hle), List.length_cons, hrest, hc,
        List.count_cons_self]
    · next hc =>
      rw [hrest, List.count_cons_of_ne hc]

/-- The line of the position behind some characters counts the newlines among them. -/
theorem lineAt_byteCount (front back : List Char) :
    (ofText (front ++ back)).lineAt (Text.byteCount front) = 1 + front.count '\n' := by
  have hlength := length_takeWhile_startsFrom 0 front back
  have hle := (List.takeWhile_prefix (l := startsFrom 0 (front ++ back))
    (· ≤ Text.byteCount front)).length_le
  rw [Nat.zero_add] at hlength
  rw [lineAt, ofText, List.takeWhile_cons, if_pos (by simp), List.length_cons, count,
    List.length_cons, hlength]
  omega

end LineIndex

/-- The line of an item is the one on which its span starts. -/
theorem Stream.line_eq_lineAt {source : String} (small : source.utf8ByteSize < 4294967296)
    {x : Item} (h : x ∈ (ofString source).toList) :
    x.line = (LineIndex.ofText source.toList).lineAt x.span.first := by
  obtain ⟨front, back, htext, hfirst, hline⟩ := (standsIn_of_mem h).exists_place small
  rw [htext, ← hfirst, LineIndex.lineAt_byteCount, hline]

end StageScript
