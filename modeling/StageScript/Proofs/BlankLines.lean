import StageScript.Proofs.Likeness

set_option autoImplicit false

/-! # Blank lines

Where tokens stand does not matter to how they are read, and how many newlines stand in a row does
not either: two scripts with the same items once all places are forgotten and every run of newlines
is cut down to one are read as programs that are the same up to lines, or fail at the same of these
items. Main statement: `Program.parse_blankLines`. -/

namespace StageScript

/-! ## Items without places -/

/-- What an item is, without where it stands. -/
def Item.content : Item → Except LexicalErrorKind (TokenKind × String)
  | token t => .ok (t.kind, t.text)
  | error e => .error e.kind

/-- The items of a script with the first newline of every run alone, and with none at the start. The
    end of the file comes last. -/
def Stream.squeezed (s : Stream) : List Item := squeeze true s.items ++ [.token s.finish]

/-- The items are the same without places, and stand at the same position of two lists. -/
structure Item.SameAt (xs ys : List Item) (x y : Item) : Prop where
  content : x.content = y.content
  position : ∃ k : Nat, xs[k]? = some x ∧ ys[k]? = some y

theorem Item.SameAt.like {xs ys : List Item} {x y : Item} (h : x.SameAt xs ys y) :
    x.Like id (fun _ => 0) id y := by
  have hcontent := h.content
  cases x with
  | token t =>
    cases y with
    | token u =>
      obtain ⟨hkind, htext⟩ := Prod.mk.inj (Except.ok.inj hcontent)
      exact .token ⟨hkind.symm, fun _ => htext.symm, fun _ => htext.symm, rfl⟩
    | error e => cases hcontent
  | error e =>
    cases y with
    | token u => cases hcontent
    | error f => exact .error (Except.error.inj hcontent).symm

/-- Scripts whose items are the same without places: lines do not count. -/
def Likeness.positions (xs ys : List Item) : Likeness where
  spell := id
  line _ := 0
  error := id
  Alike := Item.SameAt xs ys
  like := Item.SameAt.like

/-- Lists that are the same without places correspond position by position. -/
theorem forall₂_sameAt {xs ys : List Item} (h : xs.map Item.content = ys.map Item.content)
    (last last' : List Item) :
    List.Forall₂ (Item.SameAt (xs ++ last) (ys ++ last')) xs ys := by
  have hlength : xs.length = ys.length := by simpa using congrArg List.length h
  refine List.forall₂_iff_get.2 ⟨hlength, fun k hk hk' => ⟨?_, k, ?_, ?_⟩⟩
  · have hget := congrArg (·[k]?) h
    simpa [hk, hk'] using hget
  · simp [List.getElem?_append_left hk, hk]
  · simp [List.getElem?_append_left hk', hk']

/-- Like statements are the same up to lines. -/
theorem map_withLine_eq {xs ys : List Item} {sts sts' : List Statement}
    (h : List.Forall₂ (Likeness.positions xs ys).Statements sts sts') :
    sts.map (Statement.withLine 0) = sts'.map (Statement.withLine 0) := by
  induction h with
  | nil => rfl
  | @cons st st' _ _ hst _ ih =>
    have heq : st'.mapLines (fun _ => 0) = (st.respell id).mapLines fun _ => 0 := hst
    rw [Statement.respell_id] at heq
    rw [List.map_cons, List.map_cons, ih, Statement.withLine_eq_mapLines,
      Statement.withLine_eq_mapLines, heq]

/-! ## Scripts -/

/-- Two scripts are read as programs that are the same up to lines, or reading them fails in the
    same way at the same position of two lists. -/
inductive Program.SameReading (xs ys : List Item) :
    Except ParseError Program → Except ParseError Program → Prop where
  | ok {p q : Program} (h : p.withoutLines = q.withoutLines) : SameReading xs ys (.ok p) (.ok q)
  | error {e f : ParseError} {k : Nat} {x y : Item} (kind : e.kind.Like id f.kind)
    (hx : xs[k]? = some x) (hy : ys[k]? = some y) (he : e.At x) (hf : f.At y) :
    SameReading xs ys (.error e) (.error f)

/-- **Layout does not matter.** Scripts with the same items without places and without newlines at
    the start or behind others are read in the same way. -/
theorem Program.parse_blankLines {source other : String}
    (h : (squeeze true (Stream.ofString source).items).map Item.content =
      (squeeze true (Stream.ofString other).items).map Item.content) :
    SameReading (Stream.ofString source).squeezed (Stream.ofString other).squeezed
      (parse source) (parse other) := by
  let xs := squeeze true (Stream.ofString source).items
  let ys := squeeze true (Stream.ofString other).items
  have hlength : xs.length = ys.length := by simpa using congrArg List.length h
  let m := Likeness.positions (Stream.ofString source).squeezed (Stream.ofString other).squeezed
  have hstreams : m.Streams true (.ofString source) (.ofString other) := by
    refine ⟨forall₂_sameAt h _ _, rfl, xs.length, List.getElem?_concat_length, ?_⟩
    rw [hlength]
    exact List.getElem?_concat_length
  have hlike := parsedLike hstreams
  generalize parse source = r at hlike
  generalize parse other = r' at hlike
  cases hlike with
  | ok hstatements => exact .ok (congrArg Program.mk (map_withLine_eq hstatements))
  | error herror =>
    obtain ⟨hkind, x, y, halike, he, hf⟩ := herror
    have hsame : x.SameAt (Stream.ofString source).squeezed (Stream.ofString other).squeezed y :=
      halike
    obtain ⟨k, hx, hy⟩ := hsame.position
    exact .error hkind hx hy he hf

/-- Nested guards with a jump, once without a line too many and once indented, with comments at line
    ends and on lines of their own, and with blank lines wherever newlines are taken. -/
theorem Program.parse_blankLines_nested :
    (squeeze true (Stream.ofString "※a\n※b\n「x」\n→l\n命令 k：1\n").items).map Item.content =
        (squeeze true (Stream.ofString
          "\n # c\n※ a#d\n\n \n※b\n#e\n\n  「x」\n\n\n→l \n\n#f\n命令\tk：1　\n\n").items).map
            Item.content ∧
      SameReading (Stream.ofString "※a\n※b\n「x」\n→l\n命令 k：1\n").squeezed
        (Stream.ofString
          "\n # c\n※ a#d\n\n \n※b\n#e\n\n  「x」\n\n\n→l \n\n#f\n命令\tk：1　\n\n").squeezed
        (parse "※a\n※b\n「x」\n→l\n命令 k：1\n")
        (parse "\n # c\n※ a#d\n\n \n※b\n#e\n\n  「x」\n\n\n→l \n\n#f\n命令\tk：1　\n\n") :=
  ⟨by decide +kernel, parse_blankLines (by decide +kernel)⟩

end StageScript
