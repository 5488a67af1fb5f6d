import Mathlib.Data.List.Forall2
import StageScript.Proofs.Tiling

set_option autoImplicit false

/-! # Scanning starts anew on every line

No item and no comment goes on behind its line, except a newline itself. So what stands before a
newline is scanned without looking at what stands behind it, and what stands behind it is scanned as
if it stood alone, but for its place: `Stream.items_ofText_append`. -/

namespace StageScript

/-! ## Items on other lines -/

/-- The token, which is not the end of the file, was moved to another line. -/
structure Token.Moved (f : Nat → Nat) (u v : Token) : Prop where
  ne_endOfFile : u.kind ≠ .endOfFile
  kind : v.kind = u.kind
  text : v.text = u.text
  line : v.line = f u.line

/-- The item was moved to another line. -/
inductive Item.Moved (f : Nat → Nat) : Item → Item → Prop where
  | token {u v : Token} (h : u.Moved f v) : Moved f (.token u) (.token v)
  | error {d e : LexicalError} (hkind : e.kind = d.kind) (hline : e.line = f d.line) :
    Moved f (.error d) (.error e)

namespace Scanner

/-! ## Before a newline -/

section Newline

variable (more : List Char)

theorem takeWhile_append_newline {p : Char → Bool} (hp : p '\n' = false) (cs : List Char) :
    (cs ++ '\n' :: more).takeWhile p = cs.takeWhile p := by
  rw [List.takeWhile_append]
  split
  · next h =>
    have hself : cs.takeWhile p = cs := (List.takeWhile_prefix p).eq_of_length h
    simp [hp, hself]
  · rfl

theorem dropWhile_append_newline {p : Char → Bool} (hp : p '\n' = false) (cs : List Char) :
    (cs ++ '\n' :: more).dropWhile p = cs.dropWhile p ++ '\n' :: more := by
  rw [List.dropWhile_append]
  split
  · next h => simp [hp, List.isEmpty_iff.1 h]
  · rfl

theorem restOfLine_append_newline (cs : List Char) :
    restOfLine (cs ++ '\n' :: more) = restOfLine cs := by
  rw [restOfLine, takeWhile_append_newline more (by decide), restOfLine]

theorem closing?_append_newline (depth : Nat) (cs : List Char) :
    closing? depth (cs ++ '\n' :: more) = closing? depth cs := by
  induction cs generalizing depth with
  | nil => rfl
  | cons c cs ih => simp only [List.cons_append, closing?, ih]

theorem fractionLength_append_newline (cs : List Char) :
    fractionLength (cs ++ '\n' :: more) = fractionLength cs := by
  match cs with
  | [] => cases more <;> rfl
  | [point] => simp [fractionLength, show Text.isDigit '\n' = false by decide]
  | point :: digit :: cs =>
    simp only [List.cons_append, fractionLength, takeWhile_append_newline more
      (show Text.isDigit '\n' = false by decide)]

theorem numberLength_append_newline (cs : List Char) :
    numberLength (cs ++ '\n' :: more) = numberLength cs := by
  have hnewline : Text.isDigit '\n' = false := by decide
  rw [numberLength, takeWhile_append_newline more hnewline, dropWhile_append_newline more hnewline,
    fractionLength_append_newline, numberLength]

/-- What starts at a character does not look behind the end of its line. -/
theorem shape_append_newline (c : Char) (cs : List Char) :
    shape c (cs ++ '\n' :: more) = shape c cs := by
  refine shape_cases (P := fun f => f (cs ++ '\n' :: more) = f cs) c (fun _ => ?_) (fun _ => rfl)
    (fun _ => rfl) (fun plain withEqual => ?_) ?_ ?_ ?_
  · simp only [restOfLine_append_newline]
  · cases cs <;> rfl
  · simp only [closing?_append_newline, restOfLine_append_newline]
  · simp only [numberLength_append_newline]
  · simp only [takeWhile_append_newline more (show isWordChar '\n' = false by decide +kernel)]

/-- The items before a newline and those from it on. -/
theorem itemsAt_append_newline (p : Place) (cs : List Char) :
    itemsAt 0 p (cs ++ '\n' :: more) =
      itemsAt 0 p cs ++ itemsAt 0 (p.afterAll cs) ('\n' :: more) := by
  match cs with
  | [] => rfl
  | c :: cs =>
    have hle := shape_le c cs
    have hrest := itemsAt_append_newline (p.afterAll (c :: cs.take (shape c cs).2))
      (cs.drop (shape c cs).2)
    rw [← Place.afterAll_append, List.cons_append, List.take_append_drop] at hrest
    rw [List.cons_append, itemsAt_cons, itemsAt_cons, shape_append_newline,
      List.take_append_of_le_length hle, List.drop_append_of_le_length hle, hrest,
      List.append_assoc]
termination_by cs.length
decreasing_by simp only [List.length_cons, List.length_drop]; omega

end Newline

/-! ## At another place -/

/-- The same characters some lines further down give the same items there. -/
theorem itemsAt_moved (k : Nat) {p q : Place} (hline : q.line = p.line + k) (cs : List Char) :
    List.Forall₂ (Item.Moved (· + k)) (itemsAt 0 p cs) (itemsAt 0 q cs) := by
  match cs with
  | [] => exact .nil
  | c :: cs =>
    rw [itemsAt_cons, itemsAt_cons]
    refine List.rel_append ?_ (itemsAt_moved k ?_ _)
    · cases hshape : (shape c cs).1 with
      | gap => exact .nil
      | token kind =>
        have hkind : kind ≠ .endOfFile := fun h => shape_ne_endOfFile c cs (h ▸ hshape)
        exact .cons (.token ⟨hkind, rfl, rfl, hline⟩) .nil
      | error kind => exact .cons (.error rfl hline) .nil
    · simp only [Place.afterAll_eq, hline]
      omega
termination_by cs.length
decreasing_by simp only [List.length_cons, List.length_drop]; omega

end Scanner

/-- Two texts with a newline between them are scanned as one after the other. -/
theorem Stream.items_ofText_append (cs ds : List Char) :
    ∃ n items, n.kind = .newline ∧
      (ofText (cs ++ '\n' :: ds)).items = (ofText cs).items ++ .token n :: items ∧
      List.Forall₂ (Item.Moved (· + (cs.count '\n' + 1))) (ofText ds).items items := by
  let behind := (Scanner.Place.start.afterAll cs).after '\n'
  refine ⟨Scanner.tokenAt (Scanner.Place.start.afterAll cs) .newline ['\n'],
    Scanner.itemsAt 0 behind ds, rfl, ?_, Scanner.itemsAt_moved _ ?_ ds⟩
  · exact Scanner.itemsAt_append_newline ds Scanner.Place.start cs
  · simp only [behind, Scanner.Place.after, Scanner.Place.afterAll_eq, beq_self_eq_true, if_true]
    omega

end StageScript
