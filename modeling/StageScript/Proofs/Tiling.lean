import Mathlib.Logic.Function.Iterate
import StageScript.Proofs.Lookahead

set_option autoImplicit false

/-! # The scan tiles the text

Every character of a text belongs to one item or to one gap: `Scanner.Tiles` cuts a text into the
two, and the scan follows such a cut (`tiles_itemsAt`). The spans of the items, their order, and
what stands between them can be read off the cut. Main statement: `Stream.tiles_ofString`, the
stream of a script tiles it, and gives the end of the file over and over behind its last item. -/

namespace StageScript

/-- The position of a byte lies in the span of the item. -/
def Item.Covers (x : Item) (position : Nat) : Prop :=
  x.span.first ≤ position ∧ position < x.span.stop

/-- What an item was scanned as. -/
def Item.shape : Item → Scanner.Shape
  | token t => .token t.kind
  | error e => .error e.kind

def Item.token? : Item → Option Token
  | token t => some t
  | error _ => none

namespace Scanner

/-! ## One step of the scan -/

theorem restOfLine_le (cs : List Char) : restOfLine cs ≤ cs.length :=
  (List.takeWhile_prefix _).length_le

theorem numberLength_le (cs : List Char) : numberLength cs ≤ cs.length := by
  have hfraction : ∀ ds : List Char, fractionLength ds ≤ ds.length := by
    intro ds
    match ds with
    | [] | [_] => simp [fractionLength]
    | point :: digit :: ds =>
      have := (List.takeWhile_prefix (l := ds) Text.isDigit).length_le
      rw [fractionLength]
      split <;> simp only [List.length_cons] <;> omega
  have hsplit : (cs.takeWhile Text.isDigit ++ cs.dropWhile Text.isDigit).length = cs.length := by
    rw [List.takeWhile_append_dropWhile]
  have := hfraction (cs.dropWhile Text.isDigit)
  rw [List.length_append] at hsplit
  rw [numberLength]
  omega

/-- What starts at a character ends within the text. -/
theorem shape_le (c : Char) (rest : List Char) : (shape c rest).2 ≤ rest.length := by
  refine shape_cases (P := fun f => (f rest).2 ≤ rest.length) c (fun _ => restOfLine_le rest)
    (fun _ => Nat.zero_le _) (fun _ => Nat.zero_le _) (fun plain withEqual => ?_) ?_
    (numberLength_le rest) (List.takeWhile_prefix _).length_le
  · cases rest with
    | nil => exact Nat.le_refl _
    | cons d rest =>
      rw [comparison]
      split
      · simp
      · exact Nat.zero_le _
  · dsimp only
    split
    · next n hn =>
      have := (Kept.closing?_take [] hn).2.2
      rw [List.length_take] at this
      dsimp only
      omega
    · exact restOfLine_le rest

theorem shape_eq_gap {c : Char} {rest : List Char} {n : Nat} (h : shape c rest = (.gap, n)) :
    isGap c = true ∧ n = 0 ∨ isCommentMark c = true ∧ n = restOfLine rest := by
  cases starts_of_shape h with
  | comment hc => exact .inr ⟨hc, rfl⟩
  | blank hc => exact .inl ⟨hc, rfl⟩
  | sign hc => cases hc

/-! ## Cuts of a text -/

/-- The characters are a blank, or a comment that runs up to the end of its line. -/
def Gap (g rest : List Char) : Prop :=
  (∃ c, g = [c] ∧ isGap c = true) ∨
    ∃ mark body, g = mark :: body ∧ isCommentMark mark = true ∧ '\n' ∉ body ∧
      ∀ c ∈ rest.head?, c = '\n'

/-- The characters from a position on are cut into gaps and the items. -/
inductive Tiles : Nat → List Char → List Item → Prop where
  | done {o : Nat} : Tiles o [] []
  | gap {o : Nat} {g rest : List Char} {xs : List Item} (hg : Gap g rest)
    (h : Tiles (o + Text.byteCount g) rest xs) : Tiles o (g ++ rest) xs
  | item {o : Nat} {lexeme rest : List Char} {x : Item} {xs : List Item} (hne : lexeme ≠ [])
    (hspan : x.span = Span.between o (o + Text.byteCount lexeme))
    (htext : ∀ t, x = .token t → t.text = String.ofList lexeme)
    (h : Tiles (o + Text.byteCount lexeme) rest xs) : Tiles o (lexeme ++ rest) (x :: xs)

theorem Shape.text_of_item? {s : Shape} {p : Place} {lexeme : List Char} {x : Item}
    (h : s.item? p lexeme = some x) : ∀ t, x = .token t → t.text = String.ofList lexeme := by
  rintro t rfl
  cases s <;> cases h
  rfl

theorem Shape.shape_of_item? {s : Shape} {p : Place} {lexeme : List Char} {x : Item}
    (h : s.item? p lexeme = some x) : x.shape = s := by
  cases s <;> cases h <;> rfl

theorem gap_of_shape {c : Char} {cs : List Char} {n : Nat} (h : shape c cs = (.gap, n)) :
    Gap (c :: cs.take n) (cs.drop n) := by
  rcases shape_eq_gap h with ⟨hc, rfl⟩ | ⟨hc, rfl⟩
  · exact .inl ⟨c, by simp, hc⟩
  · have htake : cs.take (restOfLine cs) = cs.takeWhile (· != '\n') :=
      (List.prefix_iff_eq_take.1 (List.takeWhile_prefix _)).symm
    have hdrop : cs.drop (restOfLine cs) = cs.dropWhile (· != '\n') := by
      have h : (cs.takeWhile (· != '\n') ++ cs.dropWhile (· != '\n')).drop (restOfLine cs) =
          cs.dropWhile (· != '\n') := List.drop_left
      rwa [List.takeWhile_append_dropWhile] at h
    refine .inr ⟨c, _, rfl, hc, ?_, ?_⟩
    · rw [htake]
      intro hline
      simpa using List.mem_takeWhile_imp hline
    · rw [hdrop]
      intro d hd
      have := List.head?_dropWhile_not (· != '\n') cs
      rw [Option.mem_def.1 hd] at this
      simpa using this

/-- The scan cuts the text. -/
theorem tiles_itemsAt (p : Place) (cs : List Char) : Tiles p.offset cs (itemsAt 0 p cs) := by
  match cs with
  | [] => exact .done
  | c :: cs =>
    have hle := shape_le c cs
    cases hshape : shape c cs with
    | mk s n =>
      have hsplit : c :: cs = (c :: cs.take n) ++ cs.drop n := by simp
      have hoffset : (p.afterAll (c :: cs.take n)).offset =
          p.offset + Text.byteCount (c :: cs.take n) := by rw [Place.afterAll_eq]
      have hrest := tiles_itemsAt (p.afterAll (c :: cs.take n)) (cs.drop n)
      rw [hoffset] at hrest
      rw [itemsAt_cons, hshape]
      dsimp only
      conv => arg 2; rw [hsplit]
      cases hitem : s.item? p (c :: cs.take n) with
      | none =>
        obtain rfl := Shape.eq_gap_of_item? hitem
        exact .gap (gap_of_shape hshape) hrest
      | some x =>
        exact .item (by simp) (Shape.span_of_item? hitem) (Shape.text_of_item? hitem) hrest
termination_by cs.length
decreasing_by simp only [List.length_cons, List.length_drop]; omega

namespace Tiles

variable {o : Nat} {cs : List Char} {xs : List Item}

/-! ## Items -/

/-- An item has a character at least. -/
theorem length_le (h : Tiles o cs xs) : xs.length ≤ cs.length := by
  induction h with
  | done => exact Nat.le_refl _
  | gap _ _ ih =>
    rw [List.length_append]
    omega
  | item hne _ _ _ ih =>
    have := List.length_pos_iff.2 hne
    rw [List.length_append, List.length_cons]
    omega

theorem exists_lexeme (h : Tiles o cs xs) {x : Item} (hx : x ∈ xs) :
    ∃ before lexeme after, cs = before ++ lexeme ++ after ∧ lexeme ≠ [] ∧
      x.span = Span.between (o + Text.byteCount before)
        (o + Text.byteCount before + Text.byteCount lexeme) ∧
      ∀ t, x = .token t → t.text = String.ofList lexeme := by
  induction h with
  | done => cases hx
  | @gap o g rest xs hg h ih =>
    obtain ⟨before, lexeme, after, rfl, hne, hspan, htext⟩ := ih hx
    refine ⟨g ++ before, lexeme, after, by simp, hne, ?_, htext⟩
    rw [hspan, Text.byteCount_append, Nat.add_assoc o]
  | @item o first rest y xs hne hspan htext h ih =>
    rcases List.mem_cons.1 hx with rfl | hx
    · exact ⟨[], first, rest, by simp, hne, hspan, htext⟩
    · obtain ⟨before, lexeme, after, rfl, hne, hspan, htext⟩ := ih hx
      refine ⟨first ++ before, lexeme, after, by simp, hne, ?_, htext⟩
      rw [hspan, Text.byteCount_append, Nat.add_assoc o]

/-- Where positions are words, a span has its bounds where they were put. -/
theorem exists_bounds (h : Tiles o cs xs) (small : o + Text.byteCount cs < 4294967296) {x : Item}
    (hx : x ∈ xs) :
    ∃ before lexeme after, cs = before ++ lexeme ++ after ∧ lexeme ≠ [] ∧
      x.span.first = o + Text.byteCount before ∧
      x.span.stop = o + Text.byteCount before + Text.byteCount lexeme ∧
      ∀ t, x = .token t → t.text = String.ofList lexeme := by
  obtain ⟨before, lexeme, after, rfl, hne, hspan, htext⟩ := h.exists_lexeme hx
  rw [Text.byteCount_append, Text.byteCount_append] at small
  refine ⟨before, lexeme, after, rfl, hne, ?_, ?_, htext⟩
  · rw [hspan, Span.first_between, Nat.mod_eq_of_lt (by omega)]
  · rw [hspan, Span.stop_between (by omega) (by omega)]

theorem first_lt_stop (h : Tiles o cs xs) (small : o + Text.byteCount cs < 4294967296) {x : Item}
    (hx : x ∈ xs) :
    o ≤ x.span.first ∧ x.span.first < x.span.stop ∧ x.span.stop ≤ o + Text.byteCount cs := by
  obtain ⟨before, lexeme, after, rfl, hne, hfirst, hstop, -⟩ := h.exists_bounds small hx
  have hpos := Text.byteCount_pos hne
  rw [Text.byteCount_append, Text.byteCount_append, hfirst, hstop]
  omega

/-- The spans come one after the other. -/
theorem pairwise (h : Tiles o cs xs) (small : o + Text.byteCount cs < 4294967296) :
    xs.Pairwise fun x y => x.span.stop ≤ y.span.first := by
  induction h with
  | done => exact .nil
  | gap hg h ih =>
    rw [Text.byteCount_append, ← Nat.add_assoc] at small
    exact ih small
  | @item o lexeme rest x xs hne hspan _ h ih =>
    rw [Text.byteCount_append, ← Nat.add_assoc] at small
    refine .cons (fun y hy => ?_) (ih small)
    rw [hspan, Span.stop_between (by omega) (by omega)]
    exact (h.first_lt_stop small hy).1

/-! ## What stands between the items -/

/-- The character behind `front` stands in a comment, which starts outside the items and runs up to
    the end of its line. -/
def InComment (o : Nat) (cs : List Char) (xs : List Item) (front : List Char) : Prop :=
  ∃ start mark body rest, cs = start ++ mark :: (body ++ rest) ∧ isCommentMark mark = true ∧
    '\n' ∉ body ∧ (∀ c ∈ rest.head?, c = '\n') ∧
    (∀ x ∈ xs, ¬x.Covers (o + Text.byteCount start)) ∧
    start.length ≤ front.length ∧ front.length ≤ start.length + body.length

/-- A comment stays one behind characters and items that do not reach it. -/
theorem InComment.append {g rest front : List Char} (ys : List Item)
    (h : InComment (o + Text.byteCount g) rest xs front)
    (hys : ∀ y ∈ ys, y.span.stop ≤ o + Text.byteCount g) :
    InComment o (g ++ rest) (ys ++ xs) (g ++ front) := by
  obtain ⟨start, mark, body, after, rfl, hmark, hbody, hafter, hout, hle, hle'⟩ := h
  refine ⟨g ++ start, mark, body, after, by simp, hmark, hbody, hafter, fun x hx hcovers => ?_,
    ?_, ?_⟩
  · rw [Text.byteCount_append, ← Nat.add_assoc] at hcovers
    rcases List.mem_append.1 hx with hx | hx
    · have := hys x hx
      have := hcovers.2
      omega
    · exact hout x hx hcovers
  · simp only [List.length_append]
    omega
  · simp only [List.length_append]
    omega

/-- A character of two joined parts stands in the first or in the second one. -/
theorem exists_of_append_eq {g rest front back : List Char} {c : Char}
    (h : g ++ rest = front ++ c :: back) :
    (∃ more, g = front ++ c :: more) ∨ ∃ more, front = g ++ more ∧ rest = more ++ c :: back := by
  rcases List.append_eq_append_iff.1 h with ⟨more, rfl, hrest⟩ | ⟨more, rfl, hback⟩
  · exact .inr ⟨more, rfl, hrest⟩
  · cases more with
    | nil => exact .inr ⟨[], by simp, by simpa using hback.symm⟩
    | cons d more =>
      obtain ⟨rfl, -⟩ := List.cons.inj hback
      exact .inl ⟨more, rfl⟩

/-- A character outside the items is a blank or stands in a comment. -/
theorem isGap_or_inComment (h : Tiles o cs xs) (small : o + Text.byteCount cs < 4294967296)
    {front back : List Char} {c : Char} (hc : cs = front ++ c :: back)
    (hout : ∀ x ∈ xs, ¬x.Covers (o + Text.byteCount front)) :
    isGap c = true ∨ InComment o cs xs front := by
  induction h generalizing front with
  | done => simp at hc
  | @gap o g rest xs hg h ih =>
    rw [Text.byteCount_append, ← Nat.add_assoc] at small
    rcases exists_of_append_eq hc with ⟨more, hmore⟩ | ⟨more, rfl, hrest⟩
    · rcases hg with ⟨d, rfl, hd⟩ | ⟨mark, body, rfl, hmark, hbody, hend⟩
      · cases front with
        | nil =>
          obtain ⟨rfl, -⟩ := List.cons.inj hmore
          exact .inl hd
        | cons e front => simp at hmore
      · -- the comment is the gap itself, and all items stand behind it
        have hlength := congrArg List.length hmore
        simp only [List.length_cons, List.length_append] at hlength
        refine .inr ⟨[], mark, body, rest, rfl, hmark, hbody, hend, fun x hx hcovers => ?_,
          Nat.zero_le _, ?_⟩
        · have hfirst := (h.first_lt_stop small hx).1
          have hle := hcovers.1
          have hpos := Text.byteCount_pos (List.cons_ne_nil mark body)
          rw [Text.byteCount_nil] at hle
          omega
        · rw [List.length_nil]
          omega
    · rw [Text.byteCount_append, ← Nat.add_assoc] at hout
      refine (ih small hrest hout).imp id fun hcomment => ?_
      exact hcomment.append [] (by simp)
  | @item o lexeme rest x xs hne hspan _ h ih =>
    rw [Text.byteCount_append, ← Nat.add_assoc] at small
    have hfirst : x.span.first = o := by
      rw [hspan, Span.first_between, Nat.mod_eq_of_lt (by omega)]
    have hstop : x.span.stop = o + Text.byteCount lexeme := by
      rw [hspan, Span.stop_between (by omega) (by omega)]
    rcases exists_of_append_eq hc with ⟨more, rfl⟩ | ⟨more, rfl, hrest⟩
    · refine absurd ?_ (hout x List.mem_cons_self)
      have hpos := c.utf8Size_pos
      rw [Item.Covers, hfirst, hstop, Text.byteCount_append, Text.byteCount_cons]
      omega
    · rw [Text.byteCount_append, ← Nat.add_assoc] at hout
      have hout' : ∀ y ∈ xs, ¬y.Covers _ := fun y hy => hout y (List.mem_cons_of_mem _ hy)
      refine (ih small hrest hout').imp id fun hcomment => ?_
      exact hcomment.append [x] (by simp [hstop])

end Tiles

end Scanner

/-! ## The lexeme of a span -/

/-- A span that ends where some characters end has them for its slice, and their positions for its
    range. -/
theorem Span.slice?_of_bounds {s : Span} {before lexeme : List Char} (after : List Char)
    (hfirst : s.first = Text.byteCount before)
    (hstop : s.stop = Text.byteCount before + Text.byteCount lexeme) :
    s.slice? (before ++ lexeme ++ after) = some lexeme ∧
      s.charRange (before ++ lexeme ++ after) =
        (before.length, before.length + lexeme.length) := by
  have hcut : Text.cutAt? s.first (before ++ lexeme ++ after) =
      some (before, lexeme ++ after) := by
    rw [hfirst, List.append_assoc, Text.cutAt?_append]
  have hslice : s.slice? (before ++ lexeme ++ after) = some lexeme := by
    rw [Span.slice?, hcut]
    dsimp only
    rw [if_neg (by omega), hstop, hfirst, Nat.add_sub_cancel_left, Text.cutAt?_append]
    rfl
  refine ⟨hslice, ?_⟩
  rw [Span.charRange, hcut, hslice]
  rfl

/-! ## Streams -/

/-- What a scan makes of a text. -/
structure Stream.Tiles (s : Stream) (text : List Char) : Prop where
  /-- With the end of the file there is at most one item more than there are characters. -/
  length_le : s.toList.length ≤ text.length + 1
  /-- Taking items gives one after the other, and the end of the file ever after. -/
  calls : ∀ n, (Stream.tail^[n] s).head = s.toList[n]?.getD (.token s.finish)
  /-- Call by call, the lexer of the text gives the same. -/
  lexed : ∀ n, (Lexer.behind^[n] (.ofText text)).next.1 = s.toList[n]?.getD (.token s.finish)
  /-- The end of the file comes last, at the end of the text, and no item before it is one. -/
  finish : s.finish.kind = .endOfFile ∧ s.finish.span.first = Text.byteCount text ∧
    s.finish.span.length = 0 ∧ ∀ t, Item.token t ∈ s.items → t.kind ≠ .endOfFile
  /-- A span starts and ends between characters. Those in it are its slice, their positions are its
      range, and they are the text of the token. -/
  lexeme : ∀ x ∈ s.toList, ∃ before lexeme after, text = before ++ lexeme ++ after ∧
    x.span.first = Text.byteCount before ∧
    x.span.stop = Text.byteCount before + Text.byteCount lexeme ∧
    x.span.slice? text = some lexeme ∧
    x.span.charRange text = (before.length, before.length + lexeme.length) ∧
    ∀ t, x = .token t → t.text = String.ofList lexeme
  /-- Only the end of the file has an empty span. -/
  first_lt_stop : ∀ x ∈ s.items, x.span.first < x.span.stop
  /-- The spans come one after the other. -/
  increasing : s.toList.Pairwise fun x y =>
    x.span.first < y.span.first ∧ x.span.stop ≤ y.span.first
  /-- A character outside the spans is a blank or stands in a comment. -/
  gaps : ∀ front c back, text = front ++ c :: back →
    (∀ x ∈ s.items, ¬x.Covers (Text.byteCount front)) →
    Scanner.isGap c = true ∨ Scanner.Tiles.InComment 0 text s.items front

/-- Items that are taken off a stream come in their order, and then the end of the file. -/
theorem Stream.head_iterate_tail (s : Stream) (n : Nat) :
    (tail^[n] s).head = s.toList[n]?.getD (.token s.finish) := by
  induction n generalizing s with
  | zero =>
    obtain ⟨items, stop, line⟩ := s
    cases items <;> rfl
  | succ n ih =>
    obtain ⟨items, stop, line⟩ := s
    rw [Function.iterate_succ_apply, ih]
    cases items with
    | nil => cases n <;> rfl
    | cons x items => rfl

/-- So does the lexer of a text, which lays nothing out. -/
theorem Stream.next_iterate_behind (text : List Char) (n : Nat) :
    (Lexer.behind^[n] (.ofText text)).next.1 =
      (ofText text).toList[n]?.getD (.token (ofText text).finish) := by
  rw [(Lexer.next_eq _).1, Lexer.stream_iterate_behind]
  exact head_iterate_tail _ n

/-- The end of the file stands at the end of the text. -/
theorem Stream.bounds_finish {source : String} (small : source.utf8ByteSize < 4294967296) :
    (ofString source).finish.span.first = Text.byteCount source.toList ∧
      (ofString source).finish.span.stop = Text.byteCount source.toList := by
  rw [← Text.byteCount_toList] at small
  have hspan : (ofString source).finish.span = Span.between (Text.byteCount source.toList)
      (Text.byteCount source.toList) := by
    change Span.between (Scanner.Place.start.afterAll source.toList).offset _ = _
    rw [Scanner.Place.afterAll_eq, Scanner.Place.start, Nat.zero_add]
  rw [hspan, Span.first_between, Nat.mod_eq_of_lt small, Span.stop_between le_rfl small]
  exact ⟨rfl, rfl⟩

/-- The span of an item is that of some characters, which are the text of a token. -/
theorem Stream.exists_bounds {source : String} (small : source.utf8ByteSize < 4294967296)
    {x : Item} (hx : x ∈ (ofString source).toList) :
    ∃ before lexeme after, source.toList = before ++ lexeme ++ after ∧
      x.span.first = Text.byteCount before ∧
      x.span.stop = Text.byteCount before + Text.byteCount lexeme ∧
      ∀ t, x = .token t → t.text = String.ofList lexeme := by
  rcases List.mem_append.1 hx with hx | hx
  · obtain ⟨before, lexeme, after, heq, -, hfirst, hstop, htext⟩ :=
      (Scanner.tiles_itemsAt Scanner.Place.start source.toList).exists_bounds
        (by simpa [Scanner.Place.start, Text.byteCount_toList] using small) hx
    rw [Scanner.Place.start, Nat.zero_add] at hfirst hstop
    exact ⟨before, lexeme, after, heq, hfirst, hstop, htext⟩
  · obtain rfl := List.mem_singleton.1 hx
    obtain ⟨hfirst, hstop⟩ := bounds_finish small
    refine ⟨source.toList, [], [], by simp, hfirst, hstop, ?_⟩
    rintro t ⟨⟩
    rfl

/-- **The scan tiles the text.** The items have lexemes that stand one after the other, what is
    between them is blanks and comments, and the end of the file is reached and never left. -/
theorem Stream.tiles_ofString (source : String) (small : source.utf8ByteSize < 4294967296) :
    (ofString source).Tiles source.toList := by
  have htiles : Scanner.Tiles 0 source.toList (ofString source).items :=
    Scanner.tiles_itemsAt Scanner.Place.start source.toList
  have hsmall : 0 + Text.byteCount source.toList < 4294967296 := by
    rw [Text.byteCount_toList]
    omega
  have hfirst := (bounds_finish small).1
  refine ⟨?_, head_iterate_tail _, next_iterate_behind _, ⟨rfl, hfirst, ?_, fun t ht => ?_⟩,
    fun x hx => ?_, fun x hx => ?_, ?_, fun front c back hc hout => ?_⟩
  · have := htiles.length_le
    simp only [toList, List.length_append, List.length_singleton]
    omega
  · change (Span.between _ _).length = 0
    rw [Span.between, Nat.sub_self]
    rfl
  · exact (Scanner.lexeme_of_mem ht).ne_endOfFile
  · obtain ⟨before, lexeme, after, heq, hfirst, hstop, htext⟩ := exists_bounds small hx
    obtain ⟨hslice, hrange⟩ := Span.slice?_of_bounds after hfirst hstop
    rw [heq]
    exact ⟨before, lexeme, after, rfl, hfirst, hstop, hslice, hrange, htext⟩
  · exact (htiles.first_lt_stop hsmall hx).2.1
  · refine List.pairwise_append.2 ⟨?_, List.pairwise_singleton _ _, fun x hx y hy => ?_⟩
    · refine (htiles.pairwise hsmall).imp_of_mem fun hx _ hle => ?_
      have := (htiles.first_lt_stop hsmall hx).2.1
      exact ⟨by omega, hle⟩
    · obtain rfl := List.mem_singleton.1 hy
      have := htiles.first_lt_stop hsmall hx
      change x.span.first < (ofString source).finish.span.first ∧ _
      change _ ∧ x.span.stop ≤ (ofString source).finish.span.first
      omega
  · refine htiles.isGap_or_inComment hsmall hc fun x hx => ?_
    rw [Nat.zero_add]
    exact hout x hx

/-- Both kinds of errors (`!` and the last string), comments, a number with a point and before one,
    and characters of several bytes. -/
theorem Stream.tiles_ofString_errors :
    "※\u3000「a「b」」!# 」\n１．５.＃\n「c".utf8ByteSize < 4294967296 ∧
      (ofString "※\u3000「a「b」」!# 」\n１．５.＃\n「c").Tiles "※\u3000「a「b」」!# 」\n１．５.＃\n「c".toList :=
  ⟨by decide +kernel, tiles_ofString _ (by decide +kernel)⟩

end StageScript
